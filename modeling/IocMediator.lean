import IocMediator.Simpleq
import IocMediator.Channel
import IocMediator.Request
import IocMediator.Threads
import IocMediator.Conservation
import IocMediator.Wakeup
import IocMediator.Progress
import IocMediator.Ordering
import IocMediator.Parse
import IocMediator.Init
