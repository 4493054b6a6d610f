import Mathlib.Data.List.Basic
import Nanomsg.Fault
import Nanomsg.Lib.BigEndian
import Nanomsg.Lib.Window
import Nanomsg.Utils.Wire

/-!
# Numbers of all sizes on the wire

`wire.c`: numbers of 16, 32 and 64 bits in a buffer, each byte by byte and the highest one
first, whatever the machine does. Messages are made of several of them, one after the other.

`fields_correct`: any row of numbers that is put into a buffer is got back and nothing else in the
buffer has changed; whatever is got from a buffer, putting it again changes nothing. What is put is
compared byte by byte as the numbers are.
-/

namespace Nanomsg

open BigEndian Window

/-- `nn_gets` of two bytes. -/
def gets (b₀ b₁ : UInt8) : UInt16 := b₀.toUInt16 <<< 8 ||| b₁.toUInt16

/-- The bytes that `nn_puts` puts. -/
def puts (val : UInt16) : List UInt8 := [(val >>> 8 &&& 0xff).toUInt8, (val &&& 0xff).toUInt8]

/-- `nn_getll` of eight bytes. -/
def getll (b₀ b₁ b₂ b₃ b₄ b₅ b₆ b₇ : UInt8) : UInt64 :=
  b₀.toUInt64 <<< 56 ||| b₁.toUInt64 <<< 48 ||| b₂.toUInt64 <<< 40 ||| b₃.toUInt64 <<< 32 |||
    b₄.toUInt64 <<< 24 ||| b₅.toUInt64 <<< 16 ||| b₆.toUInt64 <<< 8 ||| b₇.toUInt64 <<< 0

/-- The bytes that `nn_putll` puts. -/
def putll (val : UInt64) : List UInt8 :=
  [(val >>> 56 &&& 0xff).toUInt8, (val >>> 48 &&& 0xff).toUInt8, (val >>> 40 &&& 0xff).toUInt8,
    (val >>> 32 &&& 0xff).toUInt8, (val >>> 24 &&& 0xff).toUInt8, (val >>> 16 &&& 0xff).toUInt8,
    (val >>> 8 &&& 0xff).toUInt8, (val &&& 0xff).toUInt8]

/-! ### As digits -/

/-- The digits of some bytes. -/
abbrev octets (bs : List UInt8) : List ℕ := bs.map UInt8.toNat

theorem octets_lt (bs : List UInt8) : ∀ d ∈ octets bs, d < 2 ^ 8 := fun d hd => by
  obtain ⟨b, -, rfl⟩ := List.mem_map.1 hd
  exact b.toNat_lt

theorem octets_inj {bs bs' : List UInt8} (h : octets bs = octets bs') : bs = bs' :=
  List.map_injective_iff.2 (fun _ _ => UInt8.toNat_inj.1) h

/-- A byte that is shifted is not cut off. -/
theorem shiftLeft_mod {n k w : ℕ} (hn : n < 2 ^ 8) (hk : k + 8 ≤ w) : n <<< k % 2 ^ w = n <<< k := by
  refine Nat.mod_eq_of_lt ?_
  calc n <<< k = n * 2 ^ k := Nat.shiftLeft_eq n k
    _ < 2 ^ 8 * 2 ^ k := Nat.mul_lt_mul_of_pos_right hn (Nat.two_pow_pos k)
    _ = 2 ^ (k + 8) := by rw [← Nat.pow_add, Nat.add_comm]
    _ ≤ 2 ^ w := Nat.pow_le_pow_right (by decide) hk

/-- One byte of a number. -/
theorem shiftRight_byte (n k : ℕ) : (n >>> k &&& 255) % 256 = n / 2 ^ k % 2 ^ 8 := by
  rw [Nat.shiftRight_eq_div_pow, show 255 = 2 ^ 8 - 1 from rfl, Nat.and_two_pow_sub_one_eq_mod,
    show 256 = 2 ^ 8 from rfl, Nat.mod_mod]

theorem toNat_gets (b₀ b₁ : UInt8) : (gets b₀ b₁).toNat = value (2 ^ 8) (octets [b₀, b₁]) := by
  have h₀ := shiftLeft_mod (w := 16) b₀.toNat_lt (k := 8) (by decide)
  rw [← shifted_eq (by decide) (octets_lt _)]
  simp only [gets, UInt16.toNat_or, UInt16.toNat_shiftLeft, UInt8.toNat_toUInt16]
  exact congrArg₂ (· ||| ·) h₀ (Nat.or_zero _).symm

theorem octets_puts (val : UInt16) : octets (puts val) = digits (2 ^ 8) 2 val.toNat := by
  simp only [puts, octets, List.map_cons, List.map_nil, digits, UInt16.toNat_toUInt8, UInt16.toNat_and,
    UInt16.toNat_shiftRight, List.cons.injEq, and_true, ← Nat.pow_mul]
  exact ⟨shiftRight_byte _ 8, shiftRight_byte _ 0⟩

theorem octets_putl (val : UInt32) : octets (putl val) = digits (2 ^ 8) 4 val.toNat := by
  simp only [putl, octets, List.map_cons, List.map_nil, digits, UInt32.toNat_toUInt8, UInt32.toNat_and,
    UInt32.toNat_shiftRight, List.cons.injEq, and_true, ← Nat.pow_mul]
  exact ⟨shiftRight_byte _ 24, shiftRight_byte _ 16, shiftRight_byte _ 8, shiftRight_byte _ 0⟩

theorem toNat_getl_octets (b₀ b₁ b₂ b₃ : UInt8) :
    (getl b₀ b₁ b₂ b₃).toNat = value (2 ^ 8) (octets [b₀, b₁, b₂, b₃]) := by
  simp only [toNat_getl, octets, List.map_cons, List.map_nil, value_cons, value_nil, List.length_cons,
    List.length_nil, ← Nat.pow_mul]
  omega

theorem toNat_getll (b₀ b₁ b₂ b₃ b₄ b₅ b₆ b₇ : UInt8) : (getll b₀ b₁ b₂ b₃ b₄ b₅ b₆ b₇).toNat =
    value (2 ^ 8) (octets [b₀, b₁, b₂, b₃, b₄, b₅, b₆, b₇]) := by
  have hs : ∀ (b : UInt8) (k : ℕ) {m n : ℕ}, k + 8 ≤ 64 → m = n →
      b.toNat <<< k % 2 ^ 64 ||| m = b.toNat <<< k ||| n := by
    rintro b k m n hk rfl
    rw [shiftLeft_mod b.toNat_lt hk]
  rw [← shifted_eq (by decide) (octets_lt _)]
  simp only [getll, UInt64.toNat_or, UInt64.toNat_shiftLeft, UInt8.toNat_toUInt64, Nat.or_assoc]
  refine hs b₀ 56 (by decide) (hs b₁ 48 (by decide) (hs b₂ 40 (by decide) (hs b₃ 32 (by decide)
    (hs b₄ 24 (by decide) (hs b₅ 16 (by decide) (hs b₆ 8 (by decide) ?_))))))
  exact (shiftLeft_mod b₇.toNat_lt (by decide)).trans (Nat.or_zero _).symm

theorem octets_putll (val : UInt64) : octets (putll val) = digits (2 ^ 8) 8 val.toNat := by
  simp only [putll, octets, List.map_cons, List.map_nil, digits, UInt64.toNat_toUInt8, UInt64.toNat_and,
    UInt64.toNat_shiftRight, List.cons.injEq, and_true, ← Nat.pow_mul]
  exact ⟨shiftRight_byte _ 56, shiftRight_byte _ 48, shiftRight_byte _ 40, shiftRight_byte _ 32,
    shiftRight_byte _ 24, shiftRight_byte _ 16, shiftRight_byte _ 8, shiftRight_byte _ 0⟩

/-! ### In a buffer -/

/-- The sizes of the numbers. -/
inductive Width
  | s
  | l
  | ll
  deriving DecidableEq

/-- How many bytes a number has. -/
def Width.size : Width → ℕ
  | s => 2
  | l => 4
  | ll => 8

theorem Width.size_pos (w : Width) : 0 < w.size := by cases w <;> decide

/-- A number. -/
inductive WireNum
  | s (val : UInt16)
  | l (val : UInt32)
  | ll (val : UInt64)
  deriving DecidableEq

namespace WireNum

/-- The size of a number. -/
def width : WireNum → Width
  | s _ => .s
  | l _ => .l
  | ll _ => .ll

/-- The number. -/
def num : WireNum → ℕ
  | s val => val.toNat
  | l val => val.toNat
  | ll val => val.toNat

/-- The bytes put for it. -/
def bytes : WireNum → List UInt8
  | s val => puts val
  | l val => putl val
  | ll val => putll val

/-- The number got from bytes. -/
def ofBytes : Width → List UInt8 → Option WireNum
  | .s, [b₀, b₁] => some (.s (gets b₀ b₁))
  | .l, [b₀, b₁, b₂, b₃] => some (.l (getl b₀ b₁ b₂ b₃))
  | .ll, [b₀, b₁, b₂, b₃, b₄, b₅, b₆, b₇] => some (.ll (getll b₀ b₁ b₂ b₃ b₄ b₅ b₆ b₇))
  | _, _ => none

/-- `nn_puts`, `nn_putl` and `nn_putll`, at the byte `off` of a buffer. -/
def put (buf : List UInt8) (off : ℕ) (f : WireNum) : Except Fault (List UInt8) :=
  if off + f.width.size ≤ buf.length then .ok (overwrite buf off f.bytes) else .error .wildPointer

/-- `nn_gets`, `nn_getl` and `nn_getll`. -/
def get (buf : List UInt8) (off : ℕ) (w : Width) : Except Fault WireNum :=
  match ofBytes w (window buf off w.size) with
  | some f => .ok f
  | none => .error .wildPointer

/-- One after the other. -/
def putAll (buf : List UInt8) : ℕ → List WireNum → Except Fault (List UInt8)
  | _, [] => .ok buf
  | off, f :: fs => do
    let buf ← put buf off f
    putAll buf (off + f.width.size) fs

def getAll (buf : List UInt8) : ℕ → List Width → Except Fault (List WireNum)
  | _, [] => .ok []
  | off, w :: ws => do
    let f ← get buf off w
    let fs ← getAll buf (off + w.size) ws
    pure (f :: fs)

/-- The bytes of some numbers. -/
def encoding (fs : List WireNum) : List UInt8 := fs.flatMap bytes

/-- How many bytes they have. -/
def sizes (ws : List Width) : ℕ := (ws.map Width.size).sum

variable {f g : WireNum} {fs gs : List WireNum} {w : Width} {ws : List Width} {bs bs' buf : List UInt8}
  {off : ℕ}

@[simp] theorem length_bytes (f : WireNum) : f.bytes.length = f.width.size := by
  cases f <;> rfl

/-- The bytes are the digits of the number. -/
theorem octets_bytes (f : WireNum) : octets f.bytes = digits (2 ^ 8) f.width.size f.num := by
  cases f with
  | s val => exact octets_puts val
  | l val => exact octets_putl val
  | ll val => exact octets_putll val

theorem num_lt (f : WireNum) : f.num < (2 ^ 8) ^ f.width.size := by
  cases f with
  | s val => exact val.toNat_lt
  | l val => exact val.toNat_lt
  | ll val => exact val.toNat_lt

/-- Numbers of one size are told apart by what they are. -/
theorem eq_of_num (hw : f.width = g.width) (hn : f.num = g.num) : f = g := by
  cases f <;> cases g <;> try cases hw
  · exact congrArg s (UInt16.toNat_inj.1 hn)
  · exact congrArg l (UInt32.toNat_inj.1 hn)
  · exact congrArg ll (UInt64.toNat_inj.1 hn)

theorem ofBytes_spec (h : ofBytes w bs = some f) :
    f.width = w ∧ bs.length = w.size ∧ f.num = value (2 ^ 8) (octets bs) := by
  unfold ofBytes at h
  split at h
  · obtain rfl := Option.some.inj h
    exact ⟨rfl, rfl, toNat_gets ..⟩
  · obtain rfl := Option.some.inj h
    exact ⟨rfl, rfl, toNat_getl_octets ..⟩
  · obtain rfl := Option.some.inj h
    exact ⟨rfl, rfl, toNat_getll ..⟩
  · cases h

/-- As many bytes as there are to be make a number. -/
theorem exists_ofBytes (h : bs.length = w.size) : ∃ f, ofBytes w bs = some f := by
  cases w with
  | s => match bs, h with | [_, _], _ => exact ⟨_, rfl⟩
  | l => match bs, h with | [_, _, _, _], _ => exact ⟨_, rfl⟩
  | ll => match bs, h with | [_, _, _, _, _, _, _, _], _ => exact ⟨_, rfl⟩

theorem ofBytes_bytes (f : WireNum) : ofBytes f.width f.bytes = some f := by
  obtain ⟨g, hg⟩ := exists_ofBytes f.length_bytes
  obtain ⟨hw, -, hn⟩ := ofBytes_spec hg
  rw [hg, eq_of_num hw (hn.trans ?_)]
  rw [octets_bytes, value_digits, Nat.mod_eq_of_lt f.num_lt]

theorem bytes_of_ofBytes (h : ofBytes w bs = some f) : f.bytes = bs := by
  obtain ⟨rfl, hlen, hn⟩ := ofBytes_spec h
  have hd := digits_value (by decide) (octets_lt bs)
  rw [List.length_map, hlen, ← hn] at hd
  exact octets_inj ((octets_bytes f).trans hd)

@[simp] theorem encoding_cons (f : WireNum) (fs : List WireNum) :
    encoding (f :: fs) = f.bytes ++ encoding fs := rfl

@[simp] theorem length_encoding (fs : List WireNum) : (encoding fs).length = sizes (fs.map width) := by
  induction fs with
  | nil => rfl
  | cons f fs ih => rw [encoding_cons, List.length_append, ih, length_bytes]; rfl

/-- Byte after byte, the highest first. -/
theorem octets_encoding (fs : List WireNum) :
    octets (encoding fs) = fs.flatMap fun f => digits (2 ^ 8) f.width.size f.num := by
  induction fs with
  | nil => rfl
  | cons f fs ih => rw [encoding_cons, octets, List.map_append, List.flatMap_cons, ← octets_bytes, ← ih]

theorem put_ok (h : off + f.width.size ≤ buf.length) : put buf off f = .ok (overwrite buf off f.bytes) :=
  if_pos h

/-- What is put is all that changes. -/
theorem putAll_ok (h : off + sizes (fs.map width) ≤ buf.length) :
    putAll buf off fs = .ok (overwrite buf off (encoding fs)) := by
  induction fs generalizing buf off with
  | nil => simp [putAll, encoding, overwrite]
  | cons f fs ih =>
    rw [List.map_cons, sizes, List.map_cons, List.sum_cons, ← sizes, ← Nat.add_assoc] at h
    have hf : off + f.bytes.length ≤ buf.length := by
      rw [length_bytes]
      exact Nat.le_of_add_right_le h
    rw [putAll, put_ok (Nat.le_of_add_right_le h), ok_bind, ih (by rw [length_overwrite hf]; exact h),
      encoding_cons, ← length_bytes f, overwrite_append]
    rwa [length_bytes, length_encoding]

/-- What is there is got. -/
theorem getAll_of_window (h : off + sizes (fs.map width) ≤ buf.length)
    (hw : window buf off (sizes (fs.map width)) = encoding fs) :
    getAll buf off (fs.map width) = .ok fs := by
  induction fs generalizing off with
  | nil => rfl
  | cons f fs ih =>
    simp only [List.map_cons, sizes, List.sum_cons, encoding_cons] at h hw ⊢
    rw [← sizes] at h hw
    have hpart : ∀ {j m : ℕ}, j + m ≤ f.width.size + sizes (fs.map width) →
        window buf (off + j) m = window (f.bytes ++ encoding fs) j m := fun hj => by
      rw [← hw, window_window hj]
    have hfirst : window buf off f.width.size = f.bytes := by
      rw [← Nat.add_zero off, hpart (by omega), window, List.drop_zero, ← length_bytes f,
        List.take_left]
    have hrest : window buf (off + f.width.size) (sizes (fs.map width)) = encoding fs := by
      rw [hpart (Nat.le_refl _), window, ← length_bytes f, List.drop_left, ← length_encoding,
        List.take_length]
    rw [getAll, get, hfirst, ofBytes_bytes]
    dsimp only
    rw [ok_bind, ih (by rwa [Nat.add_assoc]) hrest]
    rfl

/-- Putting what has been got changes nothing. -/
theorem put_get (h : get buf off w = .ok f) : put buf off f = .ok buf := by
  unfold get at h
  split at h
  · next g hg =>
    obtain rfl := Except.ok.inj h
    obtain ⟨rfl, hlen, -⟩ := ofBytes_spec hg
    have hb : off + g.width.size ≤ buf.length := by
      rw [window, List.length_take, List.length_drop] at hlen
      have hpos := g.width.size_pos
      omega
    rw [put_ok hb, bytes_of_ofBytes hg, overwrite_window hb]
  · cases h

theorem putAll_getAll (h : getAll buf off ws = .ok fs) : putAll buf off fs = .ok buf := by
  induction ws generalizing off fs with
  | nil =>
    obtain rfl := Except.ok.inj h
    rfl
  | cons w ws ih =>
    obtain ⟨f, hf, h⟩ := bind_eq_ok.1 h
    obtain ⟨gs, hg, h⟩ := bind_eq_ok.1 h
    obtain rfl := Except.ok.inj h
    have hw : f.width = w := by
      unfold get at hf
      split at hf
      · next hb => exact Except.ok.inj hf ▸ (ofBytes_spec hb).1
      · cases hf
    rw [putAll, put_get hf, ok_bind, hw, ih hg]

/-! ### Order -/

theorem octets_lt_iff : octets bs < octets bs' ↔ bs < bs' := by
  induction bs generalizing bs' with
  | nil => cases bs' <;> simp
  | cons b bs ih =>
    cases bs' with
    | nil => simp
    | cons b' bs' =>
      simp only [octets, List.map_cons, List.cons_lt_cons_iff, UInt8.lt_iff_toNat_lt, UInt8.toNat_inj]
      rw [← ih]

/-- Rows of numbers are compared as their bytes are. -/
theorem encoding_lt_iff (h : fs.map width = gs.map width) :
    encoding fs < encoding gs ↔ fs.map num < gs.map num := by
  induction fs generalizing gs with
  | nil =>
    obtain rfl := List.map_eq_nil_iff.1 h.symm
    simp [encoding]
  | cons f fs ih =>
    cases gs with
    | nil => cases h
    | cons g gs =>
      obtain ⟨hw, hr⟩ := List.cons.inj h
      have hlen : (octets f.bytes).length = (octets g.bytes).length := by
        simp only [octets, List.length_map, length_bytes, hw]
      have hnum : octets f.bytes < octets g.bytes ↔ f.num < g.num := by
        rw [← value_lt_iff (by decide) hlen (octets_lt _) (octets_lt _)]
        simp only [octets_bytes, value_digits, Nat.mod_eq_of_lt (num_lt _)]
      have heq : octets f.bytes = octets g.bytes ↔ f.num = g.num := by
        refine ⟨fun he => ?_, fun hn => by rw [eq_of_num hw hn]⟩
        simp only [octets_bytes] at he
        have hv := congrArg (value (2 ^ 8)) he
        simpa only [value_digits, Nat.mod_eq_of_lt (num_lt _)] using hv
      rw [← octets_lt_iff, encoding_cons, encoding_cons, octets, octets, List.map_append, List.map_append,
        append_lt_append_iff hlen, hnum, heq, octets_lt_iff, ih hr, List.map_cons, List.map_cons,
        List.cons_lt_cons_iff]

end WireNum

/-- The bytes of 64 bits are those of the two halves. -/
theorem putll_eq (val : UInt64) : putll val = putl (val >>> 32).toUInt32 ++ putl val.toUInt32 := by
  refine octets_inj ?_
  have hlo : val.toUInt32.toNat = val.toNat % (2 ^ 8) ^ 4 := by simp
  have hhi : (val >>> 32).toUInt32.toNat = val.toNat / (2 ^ 8) ^ 4 := by
    have := val.toNat_lt
    simp [Nat.shiftRight_eq_div_pow]
    omega
  rw [octets_putll, octets, List.map_append, ← octets, ← octets, octets_putl, octets_putl, hlo, hhi,
    digits_add 4 4]
  congr 1
  have hmod := digits_add_mul 4 (val.toNat % (2 ^ 8) ^ 4) (val.toNat / (2 ^ 8) ^ 4) (b := 2 ^ 8) (by decide)
  rwa [Nat.div_add_mod'] at hmod

namespace WireNum

/-- Numbers of any sizes, put into a buffer one after the other: the bytes are their digits, nothing else
    has changed, and they are got back. What is got from a buffer may be put there again. The bytes of
    rows of numbers of the same sizes are compared as the numbers are, and 64 bits are put as their two
    halves are. -/
theorem fields_correct (buf : List UInt8) (off : ℕ) (fs : List WireNum)
    (h : off + sizes (fs.map width) ≤ buf.length) :
    (∃ buf', putAll buf off fs = .ok buf' ∧ buf'.length = buf.length ∧
      octets (window buf' off (sizes (fs.map width))) =
        fs.flatMap (fun f => digits (2 ^ 8) f.width.size f.num) ∧
      (∀ i, i < off ∨ off + sizes (fs.map width) ≤ i → buf'[i]? = buf[i]?) ∧
      getAll buf' off (fs.map width) = .ok fs) ∧
    (∀ ws gs, getAll buf off ws = .ok gs → putAll buf off gs = .ok buf) ∧
    (∀ gs, fs.map width = gs.map width → (encoding fs < encoding gs ↔ fs.map num < gs.map num)) ∧
    ∀ val, encoding [.ll val] = encoding [.l (val >>> 32).toUInt32, .l val.toUInt32] := by
  have hb : off + (encoding fs).length ≤ buf.length := by rwa [length_encoding]
  have hlen := length_overwrite hb
  have hw := window_overwrite hb
  rw [length_encoding] at hw
  refine ⟨⟨_, putAll_ok h, hlen, ?_, fun i hi => ?_, getAll_of_window (by rwa [hlen]) hw⟩,
    fun _ _ => putAll_getAll, fun _ => encoding_lt_iff, fun val => ?_⟩
  · rw [hw, octets_encoding]
  · rw [getElem?_overwrite hb, if_neg (by rw [length_encoding]; omega)]
  · simpa [encoding, bytes] using putll_eq val

/-- A tag and a length before a number of 16 bits. -/
theorem fields_correct_header :
    let fs : List WireNum := [.l 0xdeadcafe, .ll 300, .s 513]
    ∃ buf', putAll (List.replicate 20 7) 3 fs = .ok buf' ∧
      buf' = [7, 7, 7, 0xde, 0xad, 0xca, 0xfe, 0, 0, 0, 0, 0, 0, 1, 44, 2, 1, 7, 7, 7] ∧
      getAll buf' 3 (fs.map width) = .ok fs := by
  intro fs
  obtain ⟨⟨buf', hp, -, -, -, hg⟩, -⟩ := fields_correct (List.replicate 20 7) 3 fs (by decide)
  refine ⟨buf', hp, ?_, hg⟩
  exact Except.ok.inj (hp.symm.trans rfl)

end WireNum

end Nanomsg
