import Ldap3.Lib.BigEndian

/-!
# Tag structures

The generic form of a BER element in the `lber` crate (`common.rs`, `structure.rs`): a class, a
tag number and a payload that is either primitive octets or a list of elements.

`StructureTag` is recursive through `PL`, so its generated recursor has three motives. Proofs go
through `StructureTag.induct`, whose two cases are the two payload shapes and whose constructed
case hands the induction hypothesis to every child.
-/

namespace Ldap3

/-- `TagStructure` of `common.rs`. -/
inductive TagStructure where
  | primitive
  | constructed
  deriving DecidableEq, Repr

/-- `TagClass` of `common.rs`. -/
inductive TagClass where
  | universal
  | application
  | context
  | priv
  deriving DecidableEq, Repr

namespace TagStructure

/-- The discriminant, `structure as u8`. -/
def toU8 : TagStructure → UInt8
  | primitive => 0
  | constructed => 1

def fromU8 (n : UInt8) : Option TagStructure :=
  if n = 0 then some primitive else if n = 1 then some constructed else none

end TagStructure

namespace TagClass

/-- The discriminant, `class as u8`. -/
def toU8 : TagClass → UInt8
  | universal => 0
  | application => 1
  | context => 2
  | priv => 3

def fromU8 (n : UInt8) : Option TagClass :=
  if n = 0 then some universal
  else if n = 1 then some application
  else if n = 2 then some context
  else if n = 3 then some priv
  else none

end TagClass

/-- `PL` of `structure.rs`, the payload of a tag: primitive octets or a list of elements. -/
inductive PL (τ : Type) where
  | P (v : List UInt8)
  | C (tags : List τ)

/-- `StructureTag` of `structure.rs`. The source field `class` is `cls` here. -/
structure StructureTag where
  cls : TagClass
  id : UInt64
  payload : PL StructureTag

namespace StructureTag

/-- Induction by payload shape; the constructed case assumes the property of every child. -/
@[elab_as_elim]
theorem induct {P : StructureTag → Prop} (prim : ∀ cls id v, P ⟨cls, id, .P v⟩)
    (cons : ∀ cls id ts, (∀ t ∈ ts, P t) → P ⟨cls, id, .C ts⟩) (t : StructureTag) : P t := by
  refine @StructureTag.rec P (fun pl ↦ ∀ cls id, P ⟨cls, id, pl⟩) (fun ts ↦ ∀ t ∈ ts, P t)
    ?_ ?_ ?_ ?_ ?_ t
  · exact fun cls id _ h ↦ h cls id
  · exact fun v cls id ↦ prim cls id v
  · exact fun ts h cls id ↦ cons cls id ts h
  · exact fun _ h ↦ absurd h List.not_mem_nil
  · intro t ts ht hts u hu
    rcases List.mem_cons.1 hu with rfl | hu
    · exact ht
    · exact hts u hu

/-! ### Decidable equality -/

mutual

private def decEqTag : (a b : StructureTag) → Decidable (a = b)
  | ⟨c, i, .P v⟩, ⟨c', i', .P v'⟩ => decidable_of_iff (c = c' ∧ i = i' ∧ v = v') (by simp)
  | ⟨c, i, .C ts⟩, ⟨c', i', .C ts'⟩ =>
    have := decEqTags ts ts'
    decidable_of_iff (c = c' ∧ i = i' ∧ ts = ts') (by simp)
  | ⟨_, _, .P _⟩, ⟨_, _, .C _⟩ => isFalse (by simp)
  | ⟨_, _, .C _⟩, ⟨_, _, .P _⟩ => isFalse (by simp)

private def decEqTags : (a b : List StructureTag) → Decidable (a = b)
  | [], [] => isTrue rfl
  | [], _ :: _ => isFalse (by simp)
  | _ :: _, [] => isFalse (by simp)
  | a :: as, b :: bs =>
    have := decEqTag a b
    have := decEqTags as bs
    decidable_of_iff (a = b ∧ as = bs) (by simp)

end

instance : DecidableEq StructureTag := decEqTag

/-! ### Accessors

`match_class` and `match_id` return the tag itself when the test succeeds, the `expect_*` pair
takes the payload apart. -/

def matchClass (t : StructureTag) (cls : TagClass) : Option StructureTag :=
  if t.cls = cls then some t else none

def matchId (t : StructureTag) (id : UInt64) : Option StructureTag :=
  if t.id = id then some t else none

def expectConstructed (t : StructureTag) : Option (List StructureTag) :=
  match t.payload with
  | .P _ => none
  | .C i => some i

def expectPrimitive (t : StructureTag) : Option (List UInt8) :=
  match t.payload with
  | .P i => some i
  | .C _ => none

@[simp] theorem expectConstructed_C (cls : TagClass) (id : UInt64) (ts : List StructureTag) :
    expectConstructed ⟨cls, id, .C ts⟩ = some ts := rfl

@[simp] theorem expectConstructed_P (cls : TagClass) (id : UInt64) (v : List UInt8) :
    expectConstructed ⟨cls, id, .P v⟩ = none := rfl

@[simp] theorem expectPrimitive_P (cls : TagClass) (id : UInt64) (v : List UInt8) :
    expectPrimitive ⟨cls, id, .P v⟩ = some v := rfl

@[simp] theorem expectPrimitive_C (cls : TagClass) (id : UInt64) (ts : List StructureTag) :
    expectPrimitive ⟨cls, id, .C ts⟩ = none := rfl

/-- Every tag number in the tree is at most `n`. -/
def IdsLe (n : UInt64) : StructureTag → Prop
  | ⟨_, id, .P _⟩ => id ≤ n
  | ⟨_, id, .C ts⟩ => id ≤ n ∧ ∀ t ∈ ts, IdsLe n t

end StructureTag

end Ldap3
