import Mathlib.Algebra.Group.Nat.Defs
import TraversalPlan.Plan.Binary

/-!
# Reading the binary form

A number tells by its first byte how long it is, a list and a string begin with their length, and an
alternative with its number. So bytes are read from the front without looking further. Only the bytes
of a literal do not tell its kind, which a reader must be given (**`Value.reads_kind`**).

* `Kind`, `Value.kind`: what the bytes of a literal leave out.
* `Reader`: takes bytes, and kinds of literals, from the front.
* `Reads`: a reader takes just these bytes and kinds whatever follows them.
* `Binary.readNat`, `Binary.readString` and their like: one reader for each form of data, with the
  lemma that it reads what is written.
* `Value.Fits`: no string or list is so long that its length takes more than 64 bits.
-/

namespace TraversalPlan

/-! ## Kinds of literals -/

/-- The kind of a literal, with the kinds of the items of a list. -/
inductive Kind where
  | null
  | bool
  | int
  | float
  | string
  | list (items : List Kind)

mutual

def Value.kind : Value → Kind
  | .null => .null
  | .bool _ => .bool
  | .int _ => .int
  | .float _ => .float
  | .string _ => .string
  | .list items => .list (Value.kinds items)

def Value.kinds : List Value → List Kind
  | [] => []
  | v :: vs => Value.kind v :: Value.kinds vs

end

theorem Value.length_kinds (vs : List Value) : (kinds vs).length = vs.length := by
  induction vs with
  | nil => rfl
  | cons v vs ih => rw [kinds, List.length_cons, List.length_cons, ih]

/-! ## Readers -/

/-- What is still to be read. -/
structure Unread where
  /-- The kinds of the literals to come. -/
  kinds : List Kind
  bytes : List UInt8

/-- Reads something from the front, or finds that it is not there. -/
abbrev Reader := StateT Unread Option

/-- The reader takes just these kinds and bytes for the outcome, whatever follows them. -/
def Reads {α : Type} (r : Reader α) (ks : List Kind) (bs : List UInt8) (a : α) : Prop :=
  ∀ ks' bs', r.run ⟨ks ++ ks', bs ++ bs'⟩ = some (a, ⟨ks', bs'⟩)

namespace Reads

variable {α β : Type} {r : Reader α} {f : α → Reader β} {ks ls : List Kind} {bs cs : List UInt8}
  {a : α} {b : β}

theorem pure (a : α) : Reads (Pure.pure a) [] [] a := fun _ _ => rfl

theorem bind (hr : Reads r ks bs a) (hf : Reads (f a) ls cs b) :
    Reads (r >>= f) (ks ++ ls) (bs ++ cs) b := by
  intro ks' bs'
  rw [StateT.run_bind, List.append_assoc, List.append_assoc, hr]
  exact hf ks' bs'

theorem bindPlain (hr : Reads r ks bs a) (hf : Reads (f a) [] cs b) :
    Reads (r >>= f) ks (bs ++ cs) b := by
  have h := hr.bind hf
  rwa [List.append_nil] at h

theorem check (hr : Reads r ks bs a) (hf : Reads (f a) [] [] b) : Reads (r >>= f) ks bs b := by
  have h := hr.bindPlain hf
  rwa [List.append_nil] at h

theorem result (hr : Reads r ks bs a) (g : α → β) :
    Reads (r >>= fun a => Pure.pure (g a)) ks bs (g a) := hr.check (pure (g a))

end Reads

namespace Binary

/-- The length of the string takes no more than 64 bits. -/
def StringFits (s : String) : Prop := s.utf8ByteSize < UInt64.size

/-- The length of the list takes no more than 64 bits, and its items fit. -/
def ListFits {α : Type} (P : α → Prop) (as : List α) : Prop :=
  as.length < UInt64.size ∧ ∀ a ∈ as, P a

/-! ## Numbers -/

def readByte : Reader UInt8 := fun u =>
  match u.bytes with
  | [] => none
  | b :: bytes => some (b, { u with bytes })

/-- A number of as many bytes, the least significant first. -/
def readBytes : Nat → Reader Nat
  | 0 => pure 0
  | width + 1 => do
    let b ← readByte
    let n ← readBytes width
    return b.toNat + 256 * n

/-- A natural number. Its first byte is the number itself, or says how many bytes follow. -/
def readNat : Reader Nat := do
  let b ← readByte
  if b.toNat < 251 then return b.toNat
  else if b = 251 then readBytes 2
  else if b = 252 then readBytes 4
  else if b = 253 then readBytes 8
  else failure

/-- The signed number with a place in the order 0, -1, 1, -2, 2 and so on. -/
def unzigzag (n : Nat) : Int := if n % 2 = 0 then (n / 2 : Nat) else -((n / 2 : Nat) + 1)

def readInt : Reader Int64 := do
  let n ← readNat
  return Int64.ofInt (unzigzag n)

def readUInt64 : Reader UInt64 := do
  let n ← readNat
  return UInt64.ofNat n

def readFloat : Reader Binary64 := do
  let n ← readBytes 8
  return ⟨UInt64.ofNat n⟩

/-- A boolean is one byte, zero or one. -/
def readBool : Reader Bool := do
  let b ← readByte
  if b = 0 then return false
  else if b = 1 then return true
  else failure

theorem reads_byte (b : UInt8) : Reads readByte [] [b] b := fun _ _ => rfl

theorem reads_littleEndian (width n : Nat) :
    Reads (readBytes width) [] (littleEndian width n) (n % 256 ^ width) := by
  induction width generalizing n with
  | zero =>
    rw [Nat.pow_zero, Nat.mod_one]
    exact .pure 0
  | succ width ih =>
    have hread : Reads (readBytes (width + 1)) [] (littleEndian (width + 1) n)
        ((UInt8.ofNat (n % 256)).toNat + 256 * (n / 256 % 256 ^ width)) :=
      (reads_byte _).bind ((ih (n / 256)).result fun rest => _ + 256 * rest)
    have hbyte : (UInt8.ofNat (n % 256)).toNat = n % 256 := by
      rw [UInt8.toNat_ofNat']
      omega
    have hvalue : n % 256 + 256 * (n / 256 % 256 ^ width) = n % 256 ^ (width + 1) := by
      rw [Nat.pow_succ', Nat.mod_mul]
    rwa [hbyte, hvalue] at hread

theorem reads_littleEndian_of_lt {width n : Nat} (h : n < 256 ^ width) :
    Reads (readBytes width) [] (littleEndian width n) n := by
  have hread := reads_littleEndian width n
  rwa [Nat.mod_eq_of_lt h] at hread

/-- **A number of 64 bits is read back.** -/
theorem reads_nat {n : Nat} (h : n < UInt64.size) : Reads readNat [] (ofNat n) n := by
  unfold ofNat
  split
  · rename_i hsmall
    have hbyte : (UInt8.ofNat n).toNat = n := by
      rw [UInt8.toNat_ofNat']
      omega
    have hread : Reads (if (UInt8.ofNat n).toNat < 251 then pure (UInt8.ofNat n).toNat
        else if UInt8.ofNat n = 251 then readBytes 2 else if UInt8.ofNat n = 252 then readBytes 4
        else if UInt8.ofNat n = 253 then readBytes 8 else failure) [] [] n := by
      rw [hbyte, if_pos hsmall]
      exact .pure n
    exact (reads_byte (UInt8.ofNat n)).bind hread
  · split
    · rename_i hlt
      exact (reads_byte 251).bind (reads_littleEndian_of_lt hlt)
    · split
      · rename_i hlt
        exact (reads_byte 252).bind (reads_littleEndian_of_lt hlt)
      · exact (reads_byte 253).bind (reads_littleEndian_of_lt h)

theorem unzigzag_zigzag (i : Int) : unzigzag (zigzag i) = i := by
  unfold zigzag unzigzag
  split <;> split <;> omega

theorem reads_int (i : Int64) : Reads readInt [] (ofInt i.toInt) i := by
  have hlt : zigzag i.toInt < UInt64.size := by
    have := i.toInt_lt
    have := i.le_toInt
    unfold zigzag UInt64.size
    split <;> omega
  have hread := (reads_nat hlt).result fun n => Int64.ofInt (unzigzag n)
  rwa [unzigzag_zigzag, Int64.ofInt_toInt] at hread

theorem reads_uint64 (n : UInt64) : Reads readUInt64 [] (ofNat n.toNat) n := by
  have hread := (reads_nat n.toNat_lt_size).result UInt64.ofNat
  rwa [UInt64.ofNat_toNat] at hread

theorem reads_float (x : Binary64) : Reads readFloat [] (ofFloat x) x := by
  have hbytes : Reads (readBytes 8) [] (ofFloat x) x.bits.toNat :=
    reads_littleEndian_of_lt x.bits.toNat_lt
  have hread := hbytes.result fun n => Binary64.mk (UInt64.ofNat n)
  rwa [UInt64.ofNat_toNat] at hread

theorem reads_bool (b : Bool) : Reads readBool [] (ofBool b) b := by
  cases b
  · exact (reads_byte 0).bind (.pure false)
  · exact (reads_byte 1).bind (.pure true)

/-! ## Strings, options, lists and alternatives -/

/-- As many readings of the same form one after the other. -/
def readMany {α : Type} (r : Reader α) : Nat → Reader (List α)
  | 0 => pure []
  | n + 1 => do
    let a ← r
    let as ← readMany r n
    return a :: as

def readList {α : Type} (r : Reader α) : Reader (List α) := do
  let n ← readNat
  readMany r n

def readString : Reader String := do
  let bytes ← readList readByte
  match String.fromUTF8? ⟨bytes.toArray⟩ with
  | some s => return s
  | none => failure

/-- An option is a zero byte, or a one and its content. -/
def readOption {α : Type} (r : Reader α) : Reader (Option α) := do
  let b ← readByte
  if b = 0 then return none
  else if b = 1 then do
    let a ← r
    return some a
  else failure

/-- One of some alternatives without fields, by its number. -/
def readChoice {α : Type} (choices : List α) : Reader α := do
  let n ← readNat
  match choices[n]? with
  | some a => return a
  | none => failure

section

variable {α : Type} {r : Reader α} {kinds : α → List Kind} {write : α → List UInt8}

theorem reads_many {as : List α} (h : ∀ a ∈ as, Reads r (kinds a) (write a) a) :
    Reads (readMany r as.length) (as.flatMap kinds) (as.flatMap write) as := by
  induction as with
  | nil => exact .pure []
  | cons a as ih =>
    obtain ⟨hhead, htail⟩ := List.forall_mem_cons.1 h
    exact hhead.bind ((ih htail).result fun as => a :: as)

theorem reads_list {as : List α} (hlength : as.length < UInt64.size)
    (h : ∀ a ∈ as, Reads r (kinds a) (write a) a) :
    Reads (readList r) (as.flatMap kinds) (ofList write as) as :=
  (reads_nat hlength).bind (reads_many h)

theorem reads_plainList {P : α → Prop} {as : List α} (has : ListFits P as)
    (h : ∀ a, P a → Reads r [] (write a) a) : Reads (readList r) [] (ofList write as) as := by
  have hread : Reads (readList r) (as.flatMap fun _ => []) (ofList write as) as :=
    reads_list has.1 fun a ha => h a (has.2 a ha)
  rwa [List.flatMap_eq_nil_iff.2 fun _ _ => rfl] at hread

theorem reads_option {P : α → Prop} {o : Option α} (ho : ∀ a ∈ o, P a)
    (h : ∀ a, P a → Reads r [] (write a) a) : Reads (readOption r) [] (ofOption write o) o := by
  cases o with
  | none => exact (reads_byte 0).bind (.pure none)
  | some a => exact (reads_byte 1).bind ((h a (ho a rfl)).result some)

theorem reads_choice {choices : List α} {i : Nat} {a : α} (hi : i < UInt64.size)
    (h : choices[i]? = some a) : Reads (readChoice choices) [] (ofNat i) a := by
  have hread : Reads (match choices[i]? with
      | some a => pure a
      | none => failure : Reader α) [] [] a := by
    rw [h]
    exact .pure a
  exact (reads_nat hi).check hread

end

theorem reads_string {s : String} (h : StringFits s) :
    Reads readString [] (ofString s) s := by
  let bytes := s.toUTF8.data.toList
  have hlength : bytes.length < UInt64.size := by
    rwa [Array.length_toList]
  have hbytes : Reads (readList readByte) [] (ofString s) bytes := by
    have hread := reads_plainList (P := fun _ => True) ⟨hlength, fun _ _ => trivial⟩
      fun b _ => reads_byte b
    rwa [ofList, List.flatMap_singleton'] at hread
  have hvalid : String.fromUTF8? ⟨bytes.toArray⟩ = some s := by
    rw [Array.toArray_toList]
    exact dif_pos s.isValidUTF8
  have htext : Reads (match String.fromUTF8? ⟨bytes.toArray⟩ with
      | some s => pure s
      | none => failure : Reader String) [] [] s := by
    rw [hvalid]
    exact .pure s
  exact hbytes.check htext

end Binary

/-! ## Literals -/

mutual

/-- Lengths inside the literal take no more than 64 bits. -/
def Value.Fits : Value → Prop
  | .string s => Binary.StringFits s
  | .list items => items.length < UInt64.size ∧ Value.AllFit items
  | _ => True

def Value.AllFit : List Value → Prop
  | [] => True
  | v :: vs => Value.Fits v ∧ Value.AllFit vs

end

mutual

/-- Reads a literal of a kind. -/
def Kind.read : Kind → Reader Value
  | .null => pure .null
  | .bool => do
    let b ← Binary.readBool
    return .bool b
  | .int => do
    let i ← Binary.readInt
    return .int i
  | .float => do
    let x ← Binary.readFloat
    return .float x
  | .string => do
    let s ← Binary.readString
    return .string s
  | .list items => do
    let n ← Binary.readNat
    if n = items.length then do
      let vs ← Kind.readAll items
      return .list vs
    else failure

/-- Reads a literal of each kind. -/
def Kind.readAll : List Kind → Reader (List Value)
  | [] => pure []
  | k :: ks => do
    let v ← Kind.read k
    let vs ← Kind.readAll ks
    return v :: vs

end

open Binary in
mutual

/-- **A literal is read back by its kind.** -/
theorem Value.reads_kind : ∀ {v : Value}, v.Fits → Reads v.kind.read [] v.encode v
  | .null, _ => .pure _
  | .bool b, _ => (reads_bool b).result Value.bool
  | .int i, _ => (reads_int i).result Value.int
  | .float x, _ => (reads_float x).result Value.float
  | .string _, h => (reads_string h).result Value.string
  | .list items, h => by
    have hchecked : Reads (if items.length = (Value.kinds items).length then do
        let vs ← Kind.readAll (Value.kinds items)
        return Value.list vs else failure) [] (Value.encodeItems items) (.list items) := by
      rw [if_pos (Value.length_kinds items).symm]
      exact (Value.reads_kinds h.2).result Value.list
    exact (reads_nat h.1).bind hchecked

theorem Value.reads_kinds : ∀ {vs : List Value}, Value.AllFit vs →
    Reads (Kind.readAll (Value.kinds vs)) [] (Value.encodeItems vs) vs
  | [], _ => .pure []
  | v :: _, h => (Value.reads_kind h.1).bind ((Value.reads_kinds h.2).result fun vs => v :: vs)

end

/-- The kind of the next literal. -/
def nextKind : Reader Kind := fun u =>
  match u.kinds with
  | [] => none
  | k :: kinds => some (k, { u with kinds })

def readLiteral : Reader Value := do
  let k ← nextKind
  k.read

theorem reads_nextKind (k : Kind) : Reads nextKind [k] [] k := fun _ _ => rfl

/-- A literal takes its kind besides its bytes. -/
theorem reads_literal {v : Value} (h : v.Fits) : Reads readLiteral [v.kind] v.encode v :=
  (reads_nextKind v.kind).bind (Value.reads_kind h)

end TraversalPlan
