/-
Libraries that differ by the ids of their records only: two logs of the same
additions, filed in different orders, represent such libraries.
-/
import Eems.LibraryLog

namespace Eems

open Numbering Library

/-- A bijection of the object ids and one of the resource ids. -/
structure Renaming where
  objects : Equiv.Perm Int
  resources : Equiv.Perm Int

namespace Renaming

def objectKey (rename : Renaming) (key : ObjectKey) : ObjectKey := ⟨rename.objects key.id⟩

def key (rename : Renaming) : LibraryKey → LibraryKey
  | .objectKey key => .objectKey (rename.objectKey key)
  | .resourceKey key => .resourceKey ⟨rename.resources key.id⟩

def ref (rename : Renaming) (ref : ResourceRef) : ResourceRef :=
  { ref with ref := rename.key ref.ref }

def artwork (rename : Renaming) (artwork : Artwork) : Artwork :=
  { artwork with ref := rename.key artwork.ref }

end Renaming

/-- The same object but for the ids and the order of children and artwork. -/
structure SameObject (rename : Renaming) (left right : MediaObject) : Prop where
  id : right.id = rename.objectKey left.id
  parentId : right.parentId = rename.objectKey left.parentId
  dcTitle : right.dcTitle = left.dcTitle
  upnpClass : right.upnpClass = left.upnpClass
  dcDate : right.dcDate = left.dcDate
  type : right.data.underlying = left.data.underlying
  children : (left.children.map rename.key).Perm right.children
  resources : right.resources = left.resources.map rename.ref
  artwork : (left.artworks.map rename.artwork).Perm right.artworks

/-- The renaming maps one library onto the other. -/
structure LibraryIso (rename : Renaming) (left right : Db) : Prop where
  object : ∀ key, Option.Rel (SameObject rename) (objectAt left key)
    (objectAt right (rename.key key))
  resource : ∀ key resource, left.lookup key = some (.resource resource) ↔
    right.lookup (rename.key key) = some (.resource resource)

/-- Posters stand before thumbnails. -/
def MediaObject.PostersFirst (object : MediaObject) : Prop :=
  object.artworks.Pairwise fun left right => left.type.underlying ≤ right.type.underlying

theorem SameObject.refl_of_fixed {rename : Renaming} {object : MediaObject}
    (hid : rename.objectKey object.id = object.id)
    (hparent : rename.objectKey object.parentId = object.parentId)
    (hchildren : ∀ key ∈ object.children, rename.key key = key)
    (hrefs : ∀ ref ∈ object.resourceRefs, rename.key ref = ref) :
    SameObject rename object object := by
  refine ⟨hid.symm, hparent.symm, rfl, rfl, rfl, rfl, ?_, ?_, ?_⟩
  · rw [List.map_congr_left hchildren, List.map_id']
  · have hfixed : ∀ ref ∈ object.resources, rename.ref ref = ref := by
      intro ref hmem
      simp [Renaming.ref, hrefs ref.ref (List.mem_append_right _ (List.mem_map_of_mem hmem))]
    rw [List.map_congr_left hfixed, List.map_id']
  · have hfixed : ∀ art ∈ object.artworks, rename.artwork art = art := by
      intro art hmem
      simp [Renaming.artwork, hrefs art.ref (List.mem_append_left _ (List.mem_map_of_mem hmem))]
    rw [List.map_congr_left hfixed, List.map_id']

theorem LibraryIso.refl (db : Db) :
    LibraryIso ⟨Equiv.refl Int, Equiv.refl Int⟩ db db := by
  have hkey : ∀ key, Renaming.key ⟨Equiv.refl Int, Equiv.refl Int⟩ key = key := by
    intro key
    cases key <;> rfl
  refine ⟨fun key => ?_, fun key resource => by rw [hkey]⟩
  rw [hkey]
  cases objectAt db key with
  | none => exact .none
  | some object =>
      exact .some (SameObject.refl_of_fixed rfl rfl (fun key _ => hkey key) fun ref _ => hkey ref)

theorem artworks_withChildren (object : MediaObject) (keys : List LibraryKey) :
    (object.withChildren keys).artworks = object.artworks := by
  unfold MediaObject.withChildren
  split
  · rfl
  · simp [containerMetaOf, Function.comp_def]

/-- Giving two such objects the same children keeps them alike. -/
theorem SameObject.withChildren {rename : Renaming} {left right : MediaObject}
    (h : SameObject rename left right) {keys keys' : List LibraryKey}
    (hkeys : (keys.map rename.key).Perm keys') :
    SameObject rename (left.withChildren keys) (right.withChildren keys') := by
  have hempty : keys = [] ↔ keys' = [] := by
    have hlength := hkeys.length_eq
    rw [List.length_map] at hlength
    rw [← List.length_eq_zero_iff, ← List.length_eq_zero_iff, hlength]
  have hchildren : ((left.children ++ keys).map rename.key).Perm (right.children ++ keys') := by
    rw [List.map_append]
    exact h.children.append hkeys
  have hartwork := h.artwork
  rw [← artworks_withChildren left keys, ← artworks_withChildren right keys'] at hartwork
  rw [← MediaObject.children_withChildren, ← MediaObject.children_withChildren] at hchildren
  by_cases hnil : keys = []
  · rw [hnil, hempty.mp hnil]
    exact h
  · have hnil' : ¬ keys' = [] := fun hkeys' => hnil (hempty.mpr hkeys')
    refine ⟨by simpa using h.id, by simpa using h.parentId, ?_, ?_, ?_, ?_, hchildren, ?_,
      hartwork⟩ <;>
      simp [MediaObject.withChildren, hnil, hnil', serializeContainer, containerMetaOf,
        h.dcTitle, h.upnpClass, ObjectUnion.underlying, MediaObject.resources]

namespace Plan

variable {A : Type} [DecidableEq A] {plan : Plan A} {origin : Origin}

/-- Renaming the ids a record is given renames the record. -/
def Stable (plan : Plan A) : Prop :=
  ∀ (rename : Renaming) a id start start' parentId,
    (∀ i : Nat, i < plan.width a → rename.resources (start + i) = start' + i) →
    SameObject rename (plan.record a id start parentId)
      (plan.record a (rename.objects id) start' (rename.objectKey parentId))

section TwoOrders

variable {files : FileInfo → Prop} {left right : List A}

/-- The renaming between two orders of filing. -/
def renumbering (plan : Plan A) (origin : Origin) (hnodup : left.Nodup) (hperm : left.Perm right) :
    Renaming where
  objects := renumber origin.objectId left right hnodup hperm
  resources := renumber origin.resourceId (places plan.width left) (places plan.width right)
    (places_nodup hnodup) (places_perm hperm)

variable (hnodup : left.Nodup) (hperm : left.Perm right)

theorem renumbering_key {a : A} (ha : a ∈ left) :
    (plan.renumbering origin hnodup hperm).objectKey (key origin left a) = key origin right a :=
  ObjectKey.ext (renumberFun_number ha)

theorem renumbering_start {a : A} (ha : a ∈ left) {i : Nat} (hi : i < plan.width a) :
    (plan.renumbering origin hnodup hperm).resources (plan.start origin left a + i) =
      plan.start origin right a + i := by
  have hplace : (a, i) ∈ places plan.width left := mem_places.mpr ⟨ha, hi⟩
  have hrenumber : renumberFun origin.resourceId (places plan.width left)
      (places plan.width right) (number origin.resourceId (places plan.width left) (a, i)) =
        number origin.resourceId (places plan.width right) (a, i) := renumberFun_number hplace
  rw [number_places ha hi, number_places (hperm.subset ha) hi] at hrenumber
  exact hrenumber

theorem renumbering_objectKey_of_notMem {k : ObjectKey}
    (h : k.id < origin.objectId ∨ origin.objectId + left.length ≤ k.id) :
    (plan.renumbering origin hnodup hperm).objectKey k = k :=
  ObjectKey.ext (renumberFun_of_notMem h)

theorem renumbering_resource_of_notMem {id : Int} (h : id < origin.resourceId ∨
      origin.resourceId + (left.flatMap plan.files).length ≤ id) :
    (plan.renumbering origin hnodup hperm).resources id = id := by
  apply renumberFun_of_notMem
  rw [length_places]
  rw [List.length_flatMap] at h
  exact h

theorem renumbering_parentKey (hmovies : origin.moviesFolder.id < origin.objectId)
    {container : Option A} (hknown : ∀ a, container = some a → a ∈ left) :
    (plan.renumbering origin hnodup hperm).objectKey (parentKey origin left container) =
      parentKey origin right container := by
  cases container with
  | none => exact renumbering_objectKey_of_notMem hnodup hperm (Or.inl hmovies)
  | some a => exact renumbering_key hnodup hperm (hknown a rfl)

theorem renumbering_childKeys (container : Option A) :
    ((plan.childKeys origin left container).map (plan.renumbering origin hnodup hperm).key).Perm
      (plan.childKeys origin right container) := by
  have hmap : (plan.childKeys origin left container).map
      (plan.renumbering origin hnodup hperm).key =
      (left.filter fun a => plan.parent a = container).map fun a =>
        .objectKey (key origin right a) := by
    rw [childKeys, List.map_map]
    apply List.map_congr_left
    intro a ha
    rw [Function.comp_apply, Renaming.key, renumbering_key hnodup hperm (List.mem_of_mem_filter ha)]
  rw [hmap]
  exact (hperm.filter _).map _

theorem renumbering_object (hstable : plan.Stable)
    (hmovies : origin.moviesFolder.id < origin.objectId) (hlog : plan.WellOrdered left)
    {a : A} (ha : a ∈ left) :
    SameObject (plan.renumbering origin hnodup hperm) (plan.object origin left a)
      (plan.object origin right a) := by
  refine SameObject.withChildren ?_ (renumbering_childKeys hnodup hperm (some a))
  have hsame := hstable (plan.renumbering origin hnodup hperm) a (key origin left a).id
    (plan.start origin left a) (plan.start origin right a)
    (parentKey origin left (plan.parent a)) fun i hi => renumbering_start hnodup hperm ha hi
  rw [renumbering_parentKey hnodup hperm hmovies fun b hb => hlog.parent_mem ha hb] at hsame
  have hid : (plan.renumbering origin hnodup hperm).objects (key origin left a).id =
      (key origin right a).id := congrArg ObjectKey.id (renumbering_key hnodup hperm ha)
  rw [hid] at hsame
  exact hsame

end TwoOrders

end Plan

end Eems
