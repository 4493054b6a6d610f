import Mathlib.Data.List.Infix
import Mathlib.Data.UInt
import Nanomsg.Fault

/-!
# `nn_strcasestr` and `nn_strncasecmp`

`strcasestr.c` and `strncasecmp.c`: the search for a string in another, upper and lower case being
the same. What a pointer points to is the bytes from there to the end of the object, which for a
string is its terminator: what reads past it faults.

`tolower` is that of the C library, and is taken to send 0, and only 0, to 0.
-/

namespace Nanomsg

/-- `const char *`: the bytes from there on. -/
abbrev CharPtr := List UInt8

namespace CharPtr

/-- `*p`. -/
def deref : CharPtr → Except Fault UInt8
  | [] => .error .wildPointer
  | c :: _ => .ok c

/-- `strlen`. -/
def strlen : CharPtr → Except Fault ℕ
  | [] => .error .wildPointer
  | c :: p =>
    if c = 0 then
      .ok 0
    else do
      let n ← strlen p
      pure (n + 1)

end CharPtr

open CharPtr

variable (tolower : UInt8 → ℤ)

/-- `nn_strncasecmp`, `len` being what is left to compare. -/
def strncasecmp : CharPtr → CharPtr → ℕ → Except Fault ℤ
  | _, _, 0 => .ok 0
  | a, b, len + 1 => do
    let ca ← deref a
    let cb ← deref b
    if ca = 0 ∧ cb = 0 then
      pure 0
    else
      let rv := tolower ca - tolower cb
      if rv ≠ 0 then
        pure rv
      else
        strncasecmp a.tail b.tail len

/-- The loop of `nn_strcasestr`. -/
def strcasestrLoop (key : CharPtr) (len : ℕ) : CharPtr → Except Fault (Option CharPtr)
  | [] => .error .wildPointer
  | c :: p =>
    if c ≠ 0 then do
      let rv ← strncasecmp tolower (c :: p) key len
      if rv = 0 then
        pure (some (c :: p))
      else
        strcasestrLoop key len p
    else
      pure none

/-- `nn_strcasestr`. -/
def strcasestr (str key : CharPtr) : Except Fault (Option CharPtr) := do
  let len ← strlen key
  strcasestrLoop tolower key len str

/-! ## What is searched for -/

/-- A string: what is before its terminator. -/
structure CString where
  chars : List UInt8
  zero_notMem : 0 ∉ chars

/-- The string in memory. -/
def CString.ptr (s : CString) : CharPtr := s.chars ++ [0]

/-- The first characters of `s` are those of `key` under `tolower`. -/
def BeginsWith (key s : List UInt8) : Prop :=
  key.length ≤ s.length ∧ (s.take key.length).map tolower = key.map tolower

/-- The first suffix of `str` that begins with `key`, the empty one being the last. -/
def Leftmost (str key : List UInt8) : Option CharPtr → Prop
  | some p => ∃ i ≤ str.length, p = str.drop i ++ [0] ∧ BeginsWith tolower key (str.drop i) ∧
      ∀ j < i, ¬ BeginsWith tolower key (str.drop j)
  | none => ∀ i ≤ str.length, ¬ BeginsWith tolower key (str.drop i)

/-- The bytes that `tolower` sends to 0 are those that are 0. -/
def KeepsZero : Prop := ∀ c, tolower c = 0 ↔ c = 0

variable {tolower} {a b str key : List UInt8} {c : UInt8} {n : ℕ}

/-! ## The comparison -/

theorem KeepsZero.zero (h : KeepsZero tolower) : tolower 0 = 0 := (h 0).2 rfl

theorem KeepsZero.ne (h : KeepsZero tolower) (hc : c ≠ 0) : tolower c ≠ 0 := fun h0 => hc ((h c).1 h0)

/-- The comparison of two strings ends before it leaves either, at a character that the other has
    not, or at the end of both. -/
theorem strncasecmp_spec (htl : KeepsZero tolower) (ha : 0 ∉ a) (hb : 0 ∉ b) (n : ℕ) :
    ∃ rv, strncasecmp tolower (a ++ [0]) (b ++ [0]) n = .ok rv ∧
      (rv = 0 ↔ (a.take n).map tolower = (b.take n).map tolower) := by
  induction n generalizing a b with
  | zero => exact ⟨0, by simp [strncasecmp], by simp⟩
  | succ n ih =>
    cases a with
    | nil =>
      cases b with
      | nil => exact ⟨0, by simp [strncasecmp, deref], by simp⟩
      | cons y b =>
        have hy : y ≠ 0 := fun h => hb (by simp [h])
        exact ⟨-tolower y, by simp [strncasecmp, deref, hy, htl.zero, htl.ne hy],
          by simp [htl.ne hy]⟩
    | cons x a =>
      have hx : x ≠ 0 := fun h => ha (by simp [h])
      cases b with
      | nil =>
        exact ⟨tolower x, by simp [strncasecmp, deref, hx, htl.zero, htl.ne hx],
          by simp [htl.ne hx]⟩
      | cons y b =>
        by_cases hxy : tolower x = tolower y
        · obtain ⟨rv, hrv, hiff⟩ := ih (fun h => ha (.tail _ h)) (fun h => hb (.tail _ h))
          exact ⟨rv, by simpa [strncasecmp, deref, hx, hxy] using hrv, by simpa [hxy] using hiff⟩
        · exact ⟨tolower x - tolower y, by simp [strncasecmp, deref, hx, sub_eq_zero, hxy],
            by simp [sub_eq_zero, hxy]⟩

/-- As many characters as the key has are the same exactly if the key is found there. -/
theorem beginsWith_iff : BeginsWith tolower key str ↔
    (str.take key.length).map tolower = (key.take key.length).map tolower := by
  rw [BeginsWith, List.take_length]
  refine ⟨And.right, fun h => ⟨?_, h⟩⟩
  simpa using congrArg List.length h

/-! ## The search -/

theorem strlen_ptr (h : 0 ∉ key) : strlen (key ++ [0]) = .ok key.length := by
  induction key with
  | nil => rfl
  | cons c key ih =>
    have hc : c ≠ 0 := fun h0 => h (by simp [h0])
    simp [strlen, hc, ih fun h0 => h (.tail _ h0)]

/-- The loop ends at the first suffix that matches, of those that are not empty. -/
theorem strcasestrLoop_spec (htl : KeepsZero tolower) (hkey : 0 ∉ key) (hstr : 0 ∉ str) :
    ∃ r, strcasestrLoop tolower (key ++ [0]) key.length (str ++ [0]) = .ok r ∧
      match r with
      | some p => ∃ i < str.length, p = str.drop i ++ [0] ∧ BeginsWith tolower key (str.drop i) ∧
          ∀ j < i, ¬ BeginsWith tolower key (str.drop j)
      | none => ∀ i < str.length, ¬ BeginsWith tolower key (str.drop i) := by
  induction str with
  | nil => exact ⟨none, by simp [strcasestrLoop], by simp⟩
  | cons c str ih =>
    have hc : c ≠ 0 := fun h => hstr (by simp [h])
    obtain ⟨rv, hrv, hiff⟩ := strncasecmp_spec htl hstr hkey key.length
    rw [← beginsWith_iff] at hiff
    rw [List.cons_append] at hrv
    by_cases h : rv = 0
    · exact ⟨some (c :: str ++ [0]), by simp [strcasestrLoop, hc, hrv, h],
        0, by simp, rfl, hiff.1 h, by simp⟩
    · obtain ⟨r, hr, hspec⟩ := ih fun h => hstr (.tail _ h)
      refine ⟨r, by simpa [strcasestrLoop, hc, hrv, h] using hr, ?_⟩
      -- What holds from the second character on holds of the whole, which did not match.
      cases r with
      | some p =>
        obtain ⟨i, hi, hp, hmatch, hfirst⟩ := hspec
        refine ⟨i + 1, by simpa using hi, hp, hmatch, fun j hj => ?_⟩
        cases j with
        | zero => exact fun hm => h (hiff.2 hm)
        | succ j => exact hfirst j (Nat.lt_of_succ_lt_succ hj)
      | none =>
        intro i hi
        cases i with
        | zero => exact fun hm => h (hiff.2 hm)
        | succ i => exact hspec i (Nat.lt_of_succ_lt_succ hi)

/-- The empty suffix has no other key than the empty one. -/
theorem beginsWith_empty_iff : BeginsWith tolower key [] ↔ key = [] := by
  simp [BeginsWith]

theorem beginsWith_nil : BeginsWith tolower [] str := by
  simp [BeginsWith]

/-- What no suffix that is not empty decides is decided by the key. -/
theorem leftmost_none_iff (h : ∀ i < str.length, ¬ BeginsWith tolower key (str.drop i)) :
    Leftmost tolower str key none ↔ key ≠ [] := by
  refine ⟨fun hall hkey => ?_, fun hkey i hi => ?_⟩
  · exact hall str.length (le_refl _) (hkey ▸ beginsWith_nil)
  · rcases hi.lt_or_eq with hlt | rfl
    · exact h i hlt
    · rw [List.drop_length, beginsWith_empty_iff]
      exact hkey

/-- The search is the right one but for the empty string in itself, of which no suffix is
    compared; and nothing is read past a terminator. -/
theorem strcasestr_leftmost_iff (htl : KeepsZero tolower) (str key : CString) :
    ((∃ r, strcasestr tolower str.ptr key.ptr = .ok r ∧ Leftmost tolower str.chars key.chars r) ↔
        ¬ (str.chars = [] ∧ key.chars = [])) ∧
      (∃ r, strcasestr tolower str.ptr key.ptr = .ok r) ∧
      ∀ n, ∃ rv, strncasecmp tolower str.ptr key.ptr n = .ok rv := by
  obtain ⟨r, hr, hspec⟩ := strcasestrLoop_spec htl key.zero_notMem str.zero_notMem
  have hrun : strcasestr tolower str.ptr key.ptr = .ok r := by
    rw [strcasestr, CString.ptr, CString.ptr, strlen_ptr key.zero_notMem, ok_bind, hr]
  refine ⟨?_, ⟨r, hrun⟩, fun n => ?_⟩
  · rw [hrun]
    simp only [Except.ok.injEq, exists_eq_left']
    cases r with
    | some p =>
      obtain ⟨i, hi, hp, hmatch, hfirst⟩ := hspec
      refine ⟨fun _ hnil => ?_, fun _ => ⟨i, hi.le, hp, hmatch, hfirst⟩⟩
      simp [hnil.1] at hi
    | none =>
      rw [leftmost_none_iff hspec]
      refine ⟨fun hkey hnil => hkey hnil.2, fun hne hkey => hne ⟨?_, hkey⟩⟩
      by_contra hstr
      exact hspec 0 (List.length_pos_iff.2 hstr) (hkey ▸ beginsWith_nil)
  · obtain ⟨rv, hrv, _⟩ := strncasecmp_spec htl str.zero_notMem key.zero_notMem n
    exact ⟨rv, hrv⟩

/-- The letters of ASCII. -/
def asciiTolower (c : UInt8) : ℤ := if 65 ≤ c ∧ c ≤ 90 then c.toNat + 32 else c.toNat

theorem asciiTolower_keepsZero : KeepsZero asciiTolower := by
  intro c
  have hc : c = 0 ↔ c.toNat = 0 := by rw [← UInt8.toNat_inj, UInt8.toNat_zero]
  rw [hc, asciiTolower]
  split
  · rename_i h
    have h65 : 65 ≤ c.toNat := UInt8.le_iff_toNat_le.1 h.1
    omega
  · omega

/-- "LO" in "Hello". -/
theorem strcasestr_hello :
    ((∃ r, strcasestr asciiTolower (CString.mk [72, 101, 108, 108, 111] (by decide)).ptr
        (CString.mk [76, 79] (by decide)).ptr = .ok r ∧
          Leftmost asciiTolower [72, 101, 108, 108, 111] [76, 79] r) ↔
        ¬ (([72, 101, 108, 108, 111] : List UInt8) = [] ∧ ([76, 79] : List UInt8) = [])) ∧
      (∃ r, strcasestr asciiTolower (CString.mk [72, 101, 108, 108, 111] (by decide)).ptr
        (CString.mk [76, 79] (by decide)).ptr = .ok r) ∧
      ∀ n, ∃ rv, strncasecmp asciiTolower (CString.mk [72, 101, 108, 108, 111] (by decide)).ptr
        (CString.mk [76, 79] (by decide)).ptr n = .ok rv :=
  strcasestr_leftmost_iff asciiTolower_keepsZero ⟨[72, 101, 108, 108, 111], by decide⟩
    ⟨[76, 79], by decide⟩

/-- The empty string is not found in itself. -/
theorem strcasestr_empty : ¬ ∃ r, strcasestr asciiTolower (CString.mk [] (by decide)).ptr
    (CString.mk [] (by decide)).ptr = .ok r ∧ Leftmost asciiTolower [] [] r := by
  rintro ⟨r, hr, hleft⟩
  have hnone : strcasestr asciiTolower [0] [0] = .ok none := by decide
  obtain rfl : none = r := Except.ok.inj (hnone.symm.trans hr)
  exact hleft 0 (le_refl _) beginsWith_nil

end Nanomsg
