import FuzzSocketCan.Guest.Interpreter

/-! # Data types of the packer

`build_from_val` turns a value of a script into the bytes of a seed. Vectors and structs are made
of types of fixed size only.

* **`FixedType.scripted`** — what a script means by a value.
* **`FixedType.cValue`** — what C code finds at the bytes. -/

namespace FuzzSocketCan

open Lib List

/-! ## Python values -/

inductive PyError
  | assertionError
  | structError
  | typeError
  | keyError
  | attributeError
  deriving DecidableEq, Repr

inductive PyVal
  | int (v : ℤ)
  | str (s : List Char)
  | bytes (bs : List UInt8)
  | list (vs : List PyVal)
  | dict (entries : List (String × PyVal))
  | value (ref : ℕ)

namespace PyVal

/-- The number `struct.pack` is given. -/
def toInt : PyVal → Except PyError ℤ
  | int v => .ok v
  | str [c] => .ok c.toNat
  | bytes [b] => .ok b.toNat
  | str _ | bytes _ => .error .assertionError
  | list _ | dict _ | value _ => .error .structError

/-- What `len` counts and a loop goes over. -/
def items : PyVal → Except PyError (List PyVal)
  | list vs => .ok vs
  | str s => .ok (s.map fun c => str [c])
  | bytes bs => .ok (bs.map fun b => int b.toNat)
  | dict entries => .ok (entries.map fun e => str e.1.toList)
  | int _ | value _ => .error .typeError

/-- `val[name]`. -/
def getItem (name : String) : PyVal → Except PyError PyVal
  | dict entries =>
    match entries.lookup name with
    | some v => .ok v
    | none => .error .keyError
  | int _ | str _ | bytes _ | list _ | value _ => .error .typeError

end PyVal

def structPack (size : ℕ) (v : ℤ) : Except PyError (List UInt8) :=
  if 0 ≤ v ∧ v < 256 ^ size then .ok (toLe size v.toNat) else .error .structError

/-! ## Data types -/

/-- `IntDataType` and `StructDataType`. -/
inductive FixedType
  | int (size : ℕ)
  | struct (fields : List (String × FixedType))

inductive DataType
  | fixed (t : FixedType)
  | vec (dtype : FixedType)

mutual

def FixedType.size : FixedType → ℕ
  | .int size => size
  | .struct fields => fieldsSize fields

def fieldsSize : List (String × FixedType) → ℕ
  | [] => 0
  | (_, t) :: fields => t.size + fieldsSize fields

end

mutual

/-- `build_from_val` of integers and structs. -/
def FixedType.buildFromVal : FixedType → PyVal → Except PyError (List UInt8)
  | .int size, val => do
      let v ← val.toInt
      if size = 1 ∨ size = 2 ∨ size = 4 ∨ size = 8 then structPack size v
      else .error .keyError
  | .struct fields, val => buildFields fields val

def buildFields : List (String × FixedType) → PyVal → Except PyError (List UInt8)
  | [], _ => .ok []
  | (name, t) :: fields, val => do
      let v ← val.getItem name
      let bs ← t.buildFromVal v
      let rest ← buildFields fields val
      .ok (bs ++ rest)

end

def buildElems (t : FixedType) : List PyVal → Except PyError (List UInt8)
  | [] => .ok []
  | v :: vs => do
      let bs ← t.buildFromVal v
      let rest ← buildElems t vs
      .ok (bs ++ rest)

def DataType.buildFromVal : DataType → PyVal → Except PyError (List UInt8)
  | fixed t, val => t.buildFromVal val
  | vec dtype, val => do
      let vs ← val.items
      let header ← structPack 2 vs.length
      let body ← buildElems dtype vs
      .ok (header ++ body)

/-! ## What a value means -/

mutual

def FixedType.scripted : FixedType → PyVal → Option (List ℕ)
  | .int _, val => val.toInt.toOption.map fun v => [v.toNat]
  | .struct fields, val => fieldsScripted fields val

def fieldsScripted : List (String × FixedType) → PyVal → Option (List ℕ)
  | [], _ => some []
  | (name, t) :: fields, val => do
      let v ← (val.getItem name).toOption
      let ns ← t.scripted v
      let rest ← fieldsScripted fields val
      some (ns ++ rest)

end

mutual

def FixedType.cValue : FixedType → List UInt8 → List ℕ
  | .int size, bytes => [ofLe (bytes.take size)]
  | .struct fields, bytes => fieldsCValue fields bytes

def fieldsCValue : List (String × FixedType) → List UInt8 → List ℕ
  | [], _ => []
  | (_, t) :: fields, bytes => t.cValue bytes ++ fieldsCValue fields (bytes.drop t.size)

end

def FixedType.cValues (t : FixedType) : ℕ → List UInt8 → List (List ℕ)
  | 0, _ => []
  | count + 1, bytes => t.cValue bytes :: t.cValues count (bytes.drop t.size)

/-! ## Packing keeps the meaning -/

theorem structPack_eq_ok {size : ℕ} {v : ℤ} {bs : List UInt8} (h : structPack size v = .ok bs) :
    bs = toLe size v.toNat ∧ v.toNat < 256 ^ size := by
  unfold structPack at h
  split at h
  · next hv =>
      refine ⟨(Except.ok.inj h).symm, ?_⟩
      have hpow : ((256 ^ size : ℕ) : ℤ) = 256 ^ size := by push_cast; rfl
      omega
  · cases h

mutual

theorem FixedType.buildFromVal_eq_ok : ∀ (t : FixedType) {val : PyVal} {bs : List UInt8},
    t.buildFromVal val = .ok bs →
      bs.length = t.size ∧ ∀ rest, t.scripted val = some (t.cValue (bs ++ rest))
  | .int size, val, bs, h => by
    rw [FixedType.buildFromVal] at h
    obtain ⟨v, hv, h⟩ := except_bind_eq_ok.1 h
    split at h
    · obtain ⟨rfl, hlt⟩ := structPack_eq_ok h
      refine ⟨length_toLe _ _, fun rest => ?_⟩
      rw [FixedType.scripted, FixedType.cValue, hv, take_left' (length_toLe _ _),
        ofLe_toLe_of_lt hlt]
      rfl
    · cases h
  | .struct fields, val, bs, h => by
    rw [FixedType.buildFromVal] at h
    obtain ⟨hlen, hval⟩ := buildFields_eq_ok fields h
    refine ⟨by rw [hlen, FixedType.size], fun rest => ?_⟩
    rw [FixedType.scripted, FixedType.cValue, hval]

theorem buildFields_eq_ok : ∀ (fields : List (String × FixedType)) {val : PyVal}
    {bs : List UInt8}, buildFields fields val = .ok bs →
      bs.length = fieldsSize fields ∧
        ∀ rest, fieldsScripted fields val = some (fieldsCValue fields (bs ++ rest))
  | [], val, bs, h => by
    rw [buildFields] at h
    obtain rfl := Except.ok.inj h
    refine ⟨by rw [fieldsSize, length_nil], fun rest => ?_⟩
    rw [fieldsScripted, fieldsCValue]
  | (name, t) :: fields, val, bs, h => by
    rw [buildFields] at h
    obtain ⟨v, hv, h⟩ := except_bind_eq_ok.1 h
    obtain ⟨xs, hxs, h⟩ := except_bind_eq_ok.1 h
    obtain ⟨ys, hys, h⟩ := except_bind_eq_ok.1 h
    obtain rfl := Except.ok.inj h
    obtain ⟨hlen, hval⟩ := FixedType.buildFromVal_eq_ok t hxs
    obtain ⟨hlen', hval'⟩ := buildFields_eq_ok fields hys
    refine ⟨by rw [length_append, hlen, hlen', fieldsSize], fun rest => ?_⟩
    rw [fieldsScripted, fieldsCValue, hv, append_assoc, drop_left' hlen]
    simp only [Except.toOption, Option.bind_eq_bind, Option.bind_some, hval (ys ++ rest),
      hval' rest]

end

theorem buildElems_eq_ok {t : FixedType} {vs : List PyVal} {bs : List UInt8}
    (h : buildElems t vs = .ok bs) :
    bs.length = vs.length * t.size ∧
      ∀ rest, vs.mapM t.scripted = some (t.cValues vs.length (bs ++ rest)) := by
  induction vs generalizing bs with
  | nil =>
    obtain rfl := Except.ok.inj h
    exact ⟨(Nat.zero_mul _).symm, fun _ => rfl⟩
  | cons v vs ih =>
    obtain ⟨xs, hxs, h⟩ := except_bind_eq_ok.1 h
    obtain ⟨ys, hys, h⟩ := except_bind_eq_ok.1 h
    obtain rfl := Except.ok.inj h
    obtain ⟨hlen, hval⟩ := t.buildFromVal_eq_ok hxs
    obtain ⟨hlen', hval'⟩ := ih hys
    refine ⟨?_, fun rest => ?_⟩
    · rw [length_append, hlen, hlen', length_cons, Nat.succ_mul, add_comm]
    · rw [mapM_cons, length_cons, FixedType.cValues, append_assoc,
        drop_left' hlen, hval (ys ++ rest), hval' rest]
      rfl

/-! ## The types of a specification -/

def DataType.fixedAt (types : List DataType) (id : ℕ) : FixedType :=
  match types[id]? with
  | some (fixed t) => t
  | _ => .struct []

def AtomLoader.dataType (types : List DataType) : AtomLoader → DataType
  | struct _ fields => .fixed (.struct (fields.map fun f => (f.1, DataType.fixedAt types f.2)))
  | int _ size _ => .fixed (.int size)
  | vec _ _ dtype _ => .vec (DataType.fixedAt types dtype)

/-- The data types of a specification, by `d_id`. -/
def SpecLoader.dataTypes (l : SpecLoader) : List DataType :=
  l.atomics.foldl (fun types a => types ++ [a.dataType types]) []

def DataType.guestType : DataType → GuestType
  | fixed t => .fixed t.size
  | vec dtype => .vec dtype.size

theorem sizeAt_map_guestType (types : List DataType) (id : ℕ) :
    GuestType.sizeAt (types.map DataType.guestType) id = (DataType.fixedAt types id).size := by
  rw [GuestType.sizeAt, DataType.fixedAt, getElem?_map]
  cases types[id]? with
  | none => simp [FixedType.size, fieldsSize]
  | some t => cases t <;> simp [DataType.guestType, FixedType.size, fieldsSize]

theorem fieldsSize_map (types : List DataType) (fields : List (String × ℕ)) :
    fieldsSize (fields.map fun f => (f.1, DataType.fixedAt types f.2)) =
      (fields.map fun f => GuestType.sizeAt (types.map DataType.guestType) f.2).sum := by
  induction fields with
  | nil => rw [map_nil, fieldsSize]; rfl
  | cons f fields ih =>
    rw [map_cons, map_cons, fieldsSize, ih, sum_cons, sizeAt_map_guestType]

theorem guestType_dataType (types : List DataType) (a : AtomLoader) :
    (a.dataType types).guestType = a.guestType (types.map DataType.guestType) := by
  cases a with
  | struct name fields =>
    simp only [AtomLoader.dataType, DataType.guestType, AtomLoader.guestType, FixedType.size,
      fieldsSize_map]
  | int name size generators =>
    simp [AtomLoader.dataType, DataType.guestType, AtomLoader.guestType, FixedType.size]
  | vec name range dtype generators =>
    simp [AtomLoader.dataType, DataType.guestType, AtomLoader.guestType, sizeAt_map_guestType]

theorem SpecLoader.guestTypes_eq (l : SpecLoader) :
    l.guestTypes = l.dataTypes.map DataType.guestType := by
  suffices h : ∀ (atomics : List AtomLoader) (types : List DataType),
      atomics.foldl (fun ts a => ts ++ [a.guestType ts]) (types.map DataType.guestType) =
        (atomics.foldl (fun ts a => ts ++ [a.dataType ts]) types).map DataType.guestType from
    h l.atomics []
  intro atomics
  induction atomics with
  | nil => intro types; rfl
  | cons a atomics ih =>
    intro types
    rw [foldl_cons, foldl_cons, ← ih, map_append, map_singleton,
      guestType_dataType]

end FuzzSocketCan
