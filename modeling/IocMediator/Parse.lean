import Mathlib.Data.List.Basic

/-!
# The options string

`ioc_parse` reads `"<virtual-uart-path>,<boot-reason>"`: it `strdup`s the string, calls
`strtok (param, ",")`, copies `param` into `virtual_uart_path` with `snprintf`, and, if that first
token exists, calls `strtok (NULL, ",")` and hands the result to `strtoul`.

The C library calls are modelled on a byte buffer that ends in a NUL, as the C library defines
them: `strtok` skips leading delimiters (`strspn`), ends the token at the next delimiter or NUL
(`strcspn`), writes a NUL over that delimiter and keeps the position after it.  `strtoul` is a
parameter: only what it is handed matters here.

What `iocParse` does is settled by how the string splits into fields, and `iocParse_spec` says
it for every string without a NUL, which `exists_run` cuts into runs of commas and fields:

* only commas: the path is the string, the boot reason is not touched (`iocParse_no_token`);
* one field, with commas around it: the second `strtok` returns `NULL` and `ioc_parse` hands that
  to `strtoul` (`iocParse_one_token`);
* two fields or more: the path is the first, with the commas before it, cut to 31 bytes, and the
  boot reason is `strtoul` of the second (`iocParse_two_tokens`, from `strtok_two_fields`).

`iocParse_strtoul_null` is `"/tmp/vuart"` and `",0"`, two inputs of the second kind.
-/

namespace Ioc

/-! ## The C library -/

/-- The byte at index `i` of a buffer; past its end, the NUL the buffer ends with. -/
def byteAt (buf : List Char) (i : Nat) : Char := (buf.drop i).headD '\x00'

/-- `strspn`: how many bytes from index `i` on are in `accept`. -/
def strspn (buf : List Char) (i : Nat) (accept : List Char) : Nat :=
  ((buf.drop i).takeWhile fun c => c ∈ accept ∧ c ≠ '\x00').length

/-- `strcspn`: how many bytes from index `i` on are neither in `reject` nor the NUL. -/
def strcspn (buf : List Char) (i : Nat) (reject : List Char) : Nat :=
  ((buf.drop i).takeWhile fun c => c ∉ reject ∧ c ≠ '\x00').length

/-- `strtok` from index `s` (the argument, or the position it saved): the index of the token or
`NULL`, the buffer after it, and the position it saves. -/
def strtok (delim : List Char) (buf : List Char) (s : Nat) : Option Nat × List Char × Nat :=
  if byteAt buf s = '\x00' then (none, buf, s) else
  let s := s + strspn buf s delim
  if byteAt buf s = '\x00' then (none, buf, s) else
  let e := s + strcspn buf s delim
  if byteAt buf e = '\x00' then (some s, buf, e) else (some s, buf.set e '\x00', e + 1)

/-- `strdup`: the bytes of a C string up to its NUL, and the NUL. -/
def strdup (s : List Char) : List Char := s.takeWhile (· ≠ '\x00') ++ ['\x00']

/-- The C string at index `i` of a buffer: its bytes up to the next NUL. -/
def cStringAt (buf : List Char) (i : Nat) : List Char := (buf.drop i).takeWhile (· ≠ '\x00')

/-- `snprintf (dst, size, "%s", src)`, for `size > 0`: the first `size - 1` bytes of `src`. -/
def snprintfStr (size : Nat) (src : List Char) : List Char := src.take (size - 1)

/-! ## `ioc_parse` -/

/-- `sizeof (virtual_uart_path)`. -/
def virtualUartPathSize : Nat := 32

/-- The globals `ioc_parse` sets: `virtual_uart_path` and `ioc_boot_reason`. -/
structure IocParams where
  virtualUartPath : List Char
  iocBootReason : UInt32
  deriving DecidableEq, Repr

/-- `ioc_parse (opts)` from the globals `g`, with `strtoul (tmp, 0, 0)` given as `strtoul`;
`none` when `tmp` is `NULL` at that call. -/
def iocParse (strtoul : List Char → Nat) (g : IocParams) (opts : List Char) : Option IocParams :=
  let param := strdup opts
  let (tmp, param, save) := strtok [','] param 0
  let path := snprintfStr virtualUartPathSize (cStringAt param 0)
  match tmp with
  | none => some { g with virtualUartPath := path }
  | some _ =>
    match strtok [','] param save with
    | (none, _, _) => none
    | (some t, param, _) => some ⟨path, (strtoul (cStringAt param t)).toUInt32⟩

/-! ## `strtok` on a field -/

section Strtok

variable {delim p c f t : List Char}

/-- Bytes `strtok` skips: delimiters, none of them the NUL. -/
def Skipped (delim c : List Char) : Prop := ∀ x ∈ c, x ∈ delim ∧ x ≠ '\x00'

/-- The bytes of a token: neither delimiters nor the NUL. -/
def Field (delim f : List Char) : Prop := f ≠ [] ∧ ∀ x ∈ f, x ∉ delim ∧ x ≠ '\x00'

instance (delim c : List Char) : Decidable (Skipped delim c) :=
  inferInstanceAs (Decidable (∀ x ∈ c, x ∈ delim ∧ x ≠ '\x00'))

instance (delim f : List Char) : Decidable (Field delim f) :=
  inferInstanceAs (Decidable (f ≠ [] ∧ ∀ x ∈ f, x ∉ delim ∧ x ≠ '\x00'))

lemma Field.headD_ne (hf : Field delim f) (l t : List Char) (hl : ∀ x ∈ l, x ≠ '\x00') :
    (l ++ f ++ t).headD '\x00' ≠ '\x00' := by
  rcases l with _ | ⟨x, l⟩
  · obtain ⟨y, f, rfl⟩ := List.exists_cons_of_ne_nil hf.1
    simpa using (hf.2 y (List.mem_cons_self _ _)).2
  · simpa using hl x (List.mem_cons_self _ _)

lemma Skipped.takeWhile (hc : Skipped delim c) {x : Char} (hx : ¬ (x ∈ delim ∧ x ≠ '\x00')) :
    (c ++ x :: t).takeWhile (fun c => c ∈ delim ∧ c ≠ '\x00') = c := by
  rw [List.takeWhile_append_of_pos (by simpa using hc)]
  simpa using hx

lemma Field.takeWhile (hf : Field delim f) {x : Char} (hx : ¬ (x ∉ delim ∧ x ≠ '\x00')) :
    (f ++ x :: t).takeWhile (fun c => c ∉ delim ∧ c ≠ '\x00') = f := by
  rw [List.takeWhile_append_of_pos (by simpa using hf.2)]
  simpa using hx

lemma cStringAt_append (hl : ∀ x ∈ f, x ≠ '\x00') :
    cStringAt (p ++ f ++ '\x00' :: t) p.length = f := by
  rw [cStringAt, List.append_assoc, List.drop_left,
    List.takeWhile_append_of_pos (by simpa using hl)]
  simp

/-- No token left: `strtok` returns `NULL` and saves the position of the NUL. -/
lemma strtok_none (hc : Skipped delim c) :
    strtok delim (p ++ c ++ '\x00' :: t) p.length =
      (none, p ++ c ++ '\x00' :: t, p.length + c.length) := by
  have hs : strspn (p ++ c ++ '\x00' :: t) p.length delim = c.length := by
    rw [strspn, List.append_assoc, List.drop_left, hc.takeWhile (by simp)]
  have hb : byteAt (p ++ c ++ '\x00' :: t) (p.length + c.length) = '\x00' := by
    rw [byteAt, List.append_assoc, List.drop_append, List.drop_left]; rfl
  by_cases h : byteAt (p ++ c ++ '\x00' :: t) p.length = '\x00'
  · rcases c with _ | ⟨x, c⟩
    · simp only [strtok, h, if_true, List.length_nil, Nat.add_zero]
    · simp [byteAt, (hc x (List.mem_cons_self _ _)).2] at h
  · simp only [strtok, h, hs, hb, if_true, if_false]

/-- The last token, ended by the NUL: the buffer is not written. -/
lemma strtok_last (hc : Skipped delim c) (hf : Field delim f) :
    strtok delim (p ++ c ++ f ++ '\x00' :: t) p.length =
      (some (p.length + c.length), p ++ c ++ f ++ '\x00' :: t,
        p.length + c.length + f.length) := by
  have hn : ∀ x ∈ c, x ≠ '\x00' := fun x hx => (hc x hx).2
  have hs : strspn (p ++ c ++ f ++ '\x00' :: t) p.length delim = c.length := by
    obtain ⟨y, f, rfl⟩ := List.exists_cons_of_ne_nil hf.1
    rw [strspn, List.append_assoc, List.append_assoc, List.drop_left, List.cons_append,
      hc.takeWhile fun h => (hf.2 y (List.mem_cons_self _ _)).1 h.1]
  have hcs : strcspn (p ++ c ++ f ++ '\x00' :: t) (p.length + c.length) delim = f.length := by
    rw [strcspn, List.append_assoc, List.append_assoc, List.drop_append, List.drop_left,
      hf.takeWhile (by simp)]
  have h0 : byteAt (p ++ c ++ f ++ '\x00' :: t) p.length ≠ '\x00' := by
    rw [byteAt, List.append_assoc, List.append_assoc, List.drop_left, ← List.append_assoc]
    exact hf.headD_ne c _ hn
  have h1 : byteAt (p ++ c ++ f ++ '\x00' :: t) (p.length + c.length) ≠ '\x00' := by
    rw [byteAt, List.append_assoc, List.append_assoc, List.drop_append, List.drop_left]
    exact hf.headD_ne [] _ nofun
  have h2 : byteAt (p ++ c ++ f ++ '\x00' :: t) (p.length + c.length + f.length) = '\x00' := by
    rw [byteAt, List.append_assoc, List.append_assoc, Nat.add_assoc, List.drop_append,
      List.drop_append, List.drop_left]; rfl
  simp only [strtok, hs, hcs, h0, h1, h2, if_true, if_false]

/-- A token ended by a delimiter: `strtok` writes a NUL over the delimiter and saves the position
after it. -/
lemma strtok_token (hc : Skipped delim c) (hf : Field delim f) {d : Char} (hd : d ∈ delim)
    (hd0 : d ≠ '\x00') :
    strtok delim (p ++ c ++ f ++ d :: t) p.length =
      (some (p.length + c.length), p ++ c ++ f ++ '\x00' :: t,
        p.length + c.length + f.length + 1) := by
  have hn : ∀ x ∈ c, x ≠ '\x00' := fun x hx => (hc x hx).2
  have hs : strspn (p ++ c ++ f ++ d :: t) p.length delim = c.length := by
    obtain ⟨y, f, rfl⟩ := List.exists_cons_of_ne_nil hf.1
    rw [strspn, List.append_assoc, List.append_assoc, List.drop_left, List.cons_append,
      hc.takeWhile fun h => (hf.2 y (List.mem_cons_self _ _)).1 h.1]
  have hcs : strcspn (p ++ c ++ f ++ d :: t) (p.length + c.length) delim = f.length := by
    rw [strcspn, List.append_assoc, List.append_assoc, List.drop_append, List.drop_left,
      hf.takeWhile (by simp [hd])]
  have h0 : byteAt (p ++ c ++ f ++ d :: t) p.length ≠ '\x00' := by
    rw [byteAt, List.append_assoc, List.append_assoc, List.drop_left, ← List.append_assoc]
    exact hf.headD_ne c _ hn
  have h1 : byteAt (p ++ c ++ f ++ d :: t) (p.length + c.length) ≠ '\x00' := by
    rw [byteAt, List.append_assoc, List.append_assoc, List.drop_append, List.drop_left]
    exact hf.headD_ne [] _ nofun
  have h2 : byteAt (p ++ c ++ f ++ d :: t) (p.length + c.length + f.length) = d := by
    rw [byteAt, List.append_assoc, List.append_assoc, Nat.add_assoc, List.drop_append,
      List.drop_append, List.drop_left]; rfl
  have hset : (p ++ c ++ f ++ d :: t).set (p.length + c.length + f.length) '\x00' =
      p ++ c ++ f ++ '\x00' :: t := by
    have he : p.length + c.length + f.length = (p ++ c ++ f).length := by simp [Nat.add_assoc]
    rw [he, List.set_append_right _ _ le_rfl, Nat.sub_self]
    rfl
  simp only [strtok, hs, hcs, h0, h1, h2, hd0, hset, if_false]

end Strtok

/-! ## What `ioc_parse` stores -/

section IocParse

variable (strtoul : List Char → Nat) (g : IocParams) {c f c₂ f₂ r : List Char}

lemma Skipped.not_nul (hc : Skipped [','] c) : ∀ x ∈ c, x ≠ '\x00' := fun x hx => (hc x hx).2

lemma Field.not_nul (hf : Field [','] f) : ∀ x ∈ f, x ≠ '\x00' := fun x hx => (hf.2 x hx).2

lemma strdup_of_not_nul {s : List Char} (hs : ∀ x ∈ s, x ≠ '\x00') : strdup s = s ++ ['\x00'] := by
  rw [strdup, List.takeWhile_eq_self_iff.2 (by simpa using hs)]

lemma snprintfStr_path (s : List Char) : snprintfStr virtualUartPathSize s = s.take 31 := rfl

/-- **Only commas**: no token, so `strtoul` is not called; the path is the whole string. -/
lemma iocParse_no_token (hc : Skipped [','] c) :
    iocParse strtoul g c = some { g with virtualUartPath := c.take 31 } := by
  have h := strtok_none (p := []) (t := []) hc
  have hp := cStringAt_append (p := []) (t := []) hc.not_nul
  simp only [List.nil_append, List.length_nil, Nat.zero_add] at h hp
  simp only [iocParse, strdup_of_not_nul hc.not_nul, h, hp, snprintfStr_path]

/-- **One field**, with any commas around it: the first `strtok` returns it, the second `NULL`,
and `ioc_parse` hands that `NULL` to `strtoul`. -/
lemma iocParse_one_token (hc : Skipped [','] c) (hf : Field [','] f) (hc₂ : Skipped [','] c₂) :
    iocParse strtoul g (c ++ f ++ c₂) = none := by
  rcases c₂ with _ | ⟨x, c₂⟩
  · -- the field runs to the end: the first `strtok` leaves the NUL after it
    have h₁ := strtok_last (p := []) (t := []) hc hf
    have h₂ := strtok_none (p := c ++ f) (t := []) (nofun : Skipped [','] [])
    have hn : ∀ x ∈ c ++ f, x ≠ '\x00' := List.forall_mem_append.2 ⟨hc.not_nul, hf.not_nul⟩
    simp only [List.nil_append, List.length_nil, Nat.zero_add, Nat.add_zero, List.append_nil,
      List.length_append, List.append_assoc] at h₁ h₂ ⊢
    simp only [iocParse, strdup_of_not_nul hn, List.append_assoc, h₁, h₂]
  · -- a comma ends the field, and only commas follow it
    obtain ⟨hx, hc₂'⟩ := List.forall_mem_cons.1 hc₂
    obtain rfl : x = ',' := by simpa using hx.1
    have h₁ := strtok_token (p := []) (t := c₂ ++ ['\x00']) hc hf (List.mem_singleton_self _)
      (by decide)
    have h₂ := strtok_none (p := c ++ f ++ ['\x00']) (t := []) hc₂'
    have hn : ∀ x ∈ c ++ f ++ ',' :: c₂, x ≠ '\x00' := by
      simp only [List.forall_mem_append, List.forall_mem_cons]
      exact ⟨⟨hc.not_nul, hf.not_nul⟩, by decide, fun x hx => (hc₂' x hx).2⟩
    simp only [List.nil_append, List.length_nil, Nat.zero_add, List.append_assoc,
      List.cons_append, List.singleton_append, List.length_append, List.length_singleton,
      Nat.add_assoc] at h₁ h₂
    rw [iocParse, strdup_of_not_nul hn]
    simp only [List.append_assoc, List.cons_append, h₁, h₂]

/-- The two `strtok` calls of `ioc_parse` on a string of two fields: the first returns the first
field, with the commas before it, as a C string, and the second returns the second field. -/
lemma strtok_two_fields (hc : Skipped [','] c) (hf : Field [','] f) (hc₂ : Skipped [','] c₂)
    (hf₂ : Field [','] f₂) (hr : r = [] ∨ r.head? = some ',') (hr₀ : ∀ x ∈ r, x ≠ '\x00') :
    ∃ i buf save t buf' save',
      strtok [','] (strdup (c ++ f ++ ',' :: c₂ ++ f₂ ++ r)) 0 = (some i, buf, save) ∧
      cStringAt buf 0 = c ++ f ∧ strtok [','] buf save = (some t, buf', save') ∧
      cStringAt buf' t = f₂ := by
  have hn₁ : ∀ x ∈ c ++ f, x ≠ '\x00' := List.forall_mem_append.2 ⟨hc.not_nul, hf.not_nul⟩
  have hn : ∀ x ∈ c ++ f ++ ',' :: c₂ ++ f₂ ++ r, x ≠ '\x00' := by
    simp only [List.forall_mem_append, List.forall_mem_cons]
    exact ⟨⟨⟨⟨hc.not_nul, hf.not_nul⟩, by decide, hc₂.not_nul⟩, hf₂.not_nul⟩, hr₀⟩
  have h₁ := strtok_token (p := []) (t := c₂ ++ f₂ ++ r ++ ['\x00']) hc hf
    (List.mem_singleton_self _) (by decide)
  have hp := cStringAt_append (p := []) (t := c₂ ++ f₂ ++ r ++ ['\x00']) hn₁
  rw [strdup_of_not_nul hn]
  rcases hr with rfl | hr
  · -- the second field runs to the end
    have h₂ := strtok_last (p := c ++ f ++ ['\x00']) (t := []) hc₂ hf₂
    have ha := cStringAt_append (p := c ++ f ++ ['\x00'] ++ c₂) (t := []) hf₂.not_nul
    simp only [List.nil_append, List.length_nil, Nat.zero_add, List.append_assoc,
      List.cons_append, List.singleton_append, List.append_nil, List.length_append,
      List.length_cons, Nat.add_assoc, Nat.add_comm, Nat.add_left_comm] at h₁ h₂ hp ha ⊢
    exact ⟨_, _, _, _, _, _, h₁, hp, h₂, ha⟩
  · -- a comma ends the second field
    obtain ⟨r, rfl⟩ : ∃ r', r = ',' :: r' := by
      rcases r with _ | ⟨x, r⟩
      · cases hr
      · cases hr; exact ⟨r, rfl⟩
    have h₂ := strtok_token (p := c ++ f ++ ['\x00']) (t := r ++ ['\x00']) hc₂ hf₂
      (List.mem_singleton_self _) (by decide)
    have ha := cStringAt_append (p := c ++ f ++ ['\x00'] ++ c₂) (t := r ++ ['\x00']) hf₂.not_nul
    simp only [List.nil_append, List.length_nil, Nat.zero_add, List.append_assoc,
      List.cons_append, List.singleton_append, List.length_append, List.length_cons,
      Nat.add_assoc, Nat.add_comm, Nat.add_left_comm] at h₁ h₂ hp ha ⊢
    exact ⟨_, _, _, _, _, _, h₁, hp, h₂, ha⟩

/-- **Two fields**: the path is the first field with the commas before it, cut to 31 bytes, and
the boot reason is `strtoul` of the second field, cut to 32 bits. -/
theorem iocParse_two_tokens (hc : Skipped [','] c) (hf : Field [','] f) (hc₂ : Skipped [','] c₂)
    (hf₂ : Field [','] f₂) (hr : r = [] ∨ r.head? = some ',') (hr₀ : ∀ x ∈ r, x ≠ '\x00') :
    iocParse strtoul g (c ++ f ++ ',' :: c₂ ++ f₂ ++ r) =
      some ⟨(c ++ f).take 31, (strtoul f₂).toUInt32⟩ := by
  obtain ⟨i, buf, save, t, buf', save', h₁, hp, h₂, ha⟩ := strtok_two_fields hc hf hc₂ hf₂ hr hr₀
  simp only [iocParse, h₁, h₂, hp, ha, snprintfStr_path]

/-- A path and a boot reason. -/
theorem iocParse_two_tokens_path :
    Skipped [','] [] ∧ Field [','] "/tmp/vuart".toList ∧ Skipped [','] [] ∧ Field [','] ['5'] ∧
    (([] : List Char) = [] ∨ ([] : List Char).head? = some ',') ∧
    (∀ x ∈ ([] : List Char), x ≠ '\x00') ∧
    iocParse (fun _ => 5) ⟨[], 0⟩ ([] ++ "/tmp/vuart".toList ++ ',' :: [] ++ ['5'] ++ []) =
      some ⟨([] ++ "/tmp/vuart".toList).take 31, ((fun _ => 5 : List Char → Nat) ['5']).toUInt32⟩ :=
  ⟨by decide, by decide, by decide, by decide, .inl rfl, by decide,
    iocParse_two_tokens (fun _ => 5) ⟨[], 0⟩ (by decide) (by decide) (by decide) (by decide)
      (.inl rfl) (by decide)⟩

example : iocParse (fun _ => 5) ⟨[], 0⟩ "/tmp/vuart,5".toList = some ⟨"/tmp/vuart".toList, 5⟩ := by
  decide

/-- **`ioc_parse` hands `strtoul` a `NULL` token** for a path with no boot reason, and for the
string `",0"`, whose leading empty field `strtok` skips: both have one field. -/
theorem iocParse_strtoul_null :
    iocParse strtoul g "/tmp/vuart".toList = none ∧ iocParse strtoul g ",0".toList = none :=
  ⟨iocParse_one_token (c := []) (f := "/tmp/vuart".toList) strtoul g (by decide) (by decide)
      (show Skipped [','] [] by decide),
    iocParse_one_token (c := [',']) (f := ['0']) strtoul g (by decide) (by decide)
      (show Skipped [','] [] by decide)⟩

/-! ## Every options string -/

/-- Every string is a longest run of bytes with property `P`, followed by the rest. -/
lemma exists_run (P : Char → Prop) [DecidablePred P] : ∀ s : List Char,
    ∃ w t, s = w ++ t ∧ (∀ x ∈ w, P x) ∧ ∀ x t', t = x :: t' → ¬ P x
  | [] => ⟨[], [], rfl, by simp, by simp⟩
  | x :: s =>
    if hx : P x then
      let ⟨w, t, hs, hw, ht⟩ := exists_run P s
      ⟨x :: w, t, by rw [hs, List.cons_append], List.forall_mem_cons.2 ⟨hx, hw⟩, ht⟩
    else ⟨[], x :: s, rfl, by simp, fun y t' h => by cases h; exact hx⟩

/-- The commas `strtok` skips at the start of a string without a NUL, and the rest, which does
not start with a comma. -/
lemma exists_skipped {s : List Char} (hs : ∀ x ∈ s, x ≠ '\x00') :
    ∃ c t, Skipped [','] c ∧ s = c ++ t ∧ ∀ x t', t = x :: t' → x ≠ ',' := by
  obtain ⟨c, t, rfl, hc, ht⟩ := exists_run (· = ',') s
  exact ⟨c, t, fun x hx => ⟨by simp [hc x hx], hs x (List.mem_append_left _ hx)⟩, rfl, ht⟩

/-- The field `strtok` returns from a string without a NUL that starts with a byte other than a
comma, and the rest, empty or starting with a comma. -/
lemma exists_field {t : List Char} (hs : ∀ x ∈ t, x ≠ '\x00') {x : Char} {t' : List Char}
    (ht : t = x :: t') (hx : x ≠ ',') :
    ∃ f u, Field [','] f ∧ t = f ++ u ∧ (u = [] ∨ u.head? = some ',') := by
  obtain ⟨f, u, rfl, hf, hu⟩ := exists_run (· ≠ ',') t
  refine ⟨f, u, ⟨?_, fun y hy => ⟨by simpa using hf y hy, hs y (List.mem_append_left _ hy)⟩⟩,
    rfl, ?_⟩
  · rintro rfl
    exact hu x t' ht hx
  · rcases u with _ | ⟨y, u⟩
    · exact .inl rfl
    · exact .inr (by simpa using hu y u rfl)

/-- **Every string without a NUL** is commas alone, one field with commas around it, or two fields
followed by nothing or by a comma and more. -/
lemma fields_cases {s : List Char} (hs : ∀ x ∈ s, x ≠ '\x00') :
    Skipped [','] s ∨
    (∃ c f c₂, Skipped [','] c ∧ Field [','] f ∧ Skipped [','] c₂ ∧ s = c ++ f ++ c₂) ∨
    (∃ c f c₂ f₂ r, Skipped [','] c ∧ Field [','] f ∧ Skipped [','] c₂ ∧ Field [','] f₂ ∧
      (r = [] ∨ r.head? = some ',') ∧ (∀ x ∈ r, x ≠ '\x00') ∧
      s = c ++ f ++ ',' :: c₂ ++ f₂ ++ r) := by
  obtain ⟨c, t, hc, rfl, ht⟩ := exists_skipped hs
  have hs₁ : ∀ x ∈ t, x ≠ '\x00' := fun x hx => hs x (List.mem_append_right _ hx)
  rcases t with _ | ⟨x, t'⟩
  · exact .inl (by simpa using hc)
  obtain ⟨f, u, hf, hfu, hu⟩ := exists_field hs₁ rfl (ht x t' rfl)
  rw [hfu] at hs₁ ⊢
  have hu₀ : ∀ x ∈ u, x ≠ '\x00' := fun x hx => hs₁ x (List.mem_append_right _ hx)
  rcases hu with rfl | hu
  · -- one field, up to the end
    exact .inr (.inl ⟨c, f, [], hc, hf, nofun, by simp⟩)
  obtain ⟨u, rfl⟩ : ∃ u', u = ',' :: u' := by
    rcases u with _ | ⟨y, u⟩
    · cases hu
    · cases hu; exact ⟨u, rfl⟩
  obtain ⟨c₂, t₂, hc₂, rfl, ht₂⟩ := exists_skipped fun x hx => hu₀ x (List.mem_cons_of_mem _ hx)
  rcases t₂ with _ | ⟨y, t₂⟩
  · -- one field, then commas alone
    exact .inr (.inl ⟨c, f, ',' :: c₂, hc, hf, List.forall_mem_cons.2 ⟨by decide, hc₂⟩, by simp⟩)
  · -- two fields, then the rest
    have ht₂₀ : ∀ x ∈ y :: t₂, x ≠ '\x00' :=
      fun x hx => hu₀ x (List.mem_cons_of_mem _ (List.mem_append_right _ hx))
    obtain ⟨f₂, r, hf₂, hfr, hr⟩ := exists_field ht₂₀ rfl (ht₂ y t₂ rfl)
    exact .inr (.inr ⟨c, f, c₂, f₂, r, hc, hf, hc₂, hf₂, hr,
      fun x hx => ht₂₀ x (hfr ▸ List.mem_append_right _ hx), by rw [hfr]; simp⟩)

/-- **What `ioc_parse` does with every options string** without a NUL byte, by how `strtok`
splits it: a string of commas alone leaves the boot reason as it was; a string of one field, with
commas around it, makes `ioc_parse` hand `NULL` to `strtoul`; a string of two fields or more gives
the path, the first field with the commas before it cut to 31 bytes, and the boot reason,
`strtoul` of the second field cut to 32 bits. -/
theorem iocParse_spec {s : List Char} (hs : ∀ x ∈ s, x ≠ '\x00') :
    (Skipped [','] s ∧ iocParse strtoul g s = some { g with virtualUartPath := s.take 31 }) ∨
    ((∃ c f c₂, Skipped [','] c ∧ Field [','] f ∧ Skipped [','] c₂ ∧ s = c ++ f ++ c₂) ∧
      iocParse strtoul g s = none) ∨
    (∃ c f c₂ f₂ r, Skipped [','] c ∧ Field [','] f ∧ Skipped [','] c₂ ∧ Field [','] f₂ ∧
      (r = [] ∨ r.head? = some ',') ∧ s = c ++ f ++ ',' :: c₂ ++ f₂ ++ r ∧
      iocParse strtoul g s = some ⟨(c ++ f).take 31, (strtoul f₂).toUInt32⟩) := by
  rcases fields_cases hs with hc | ⟨c, f, c₂, hc, hf, hc₂, rfl⟩ |
    ⟨c, f, c₂, f₂, r, hc, hf, hc₂, hf₂, hr, hr₀, rfl⟩
  · exact .inl ⟨hc, iocParse_no_token strtoul g hc⟩
  · exact .inr (.inl ⟨⟨c, f, c₂, hc, hf, hc₂, rfl⟩, iocParse_one_token strtoul g hc hf hc₂⟩)
  · obtain ⟨i, buf, save, t, buf', save', h₁, hp, h₂, ha⟩ :=
      strtok_two_fields hc hf hc₂ hf₂ hr hr₀
    exact .inr (.inr ⟨c, f, c₂, f₂, r, hc, hf, hc₂, hf₂, hr, rfl,
      by simp only [iocParse, h₁, h₂, hp, ha, snprintfStr_path]⟩)

/-- A path, an empty field, a boot reason and one more field. -/
theorem iocParse_spec_path_reason :
    let s := "/tmp/vuart,,7,x".toList
    let strtoul : List Char → Nat := fun _ => 7
    let g : IocParams := ⟨[], 0⟩
    (∀ x ∈ s, x ≠ '\x00') ∧
    ((Skipped [','] s ∧ iocParse strtoul g s = some { g with virtualUartPath := s.take 31 }) ∨
    ((∃ c f c₂, Skipped [','] c ∧ Field [','] f ∧ Skipped [','] c₂ ∧ s = c ++ f ++ c₂) ∧
      iocParse strtoul g s = none) ∨
    (∃ c f c₂ f₂ r, Skipped [','] c ∧ Field [','] f ∧ Skipped [','] c₂ ∧ Field [','] f₂ ∧
      (r = [] ∨ r.head? = some ',') ∧ s = c ++ f ++ ',' :: c₂ ++ f₂ ++ r ∧
      iocParse strtoul g s = some ⟨(c ++ f).take 31, (strtoul f₂).toUInt32⟩)) :=
  ⟨by decide, iocParse_spec (fun _ => 7) ⟨[], 0⟩ (by decide)⟩

end IocParse

end Ioc
