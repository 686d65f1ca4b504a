/-
Several plans carried out one after another, on one library: the logs follow
each other, each addition marked with the plan it belongs to.
-/
import Eems.LibraryLog

namespace Eems

open Numbering

namespace Plan

variable {A : Type}

/-- The plans as one, their additions told apart by an index. -/
def family (plans : Nat → Plan A) : Plan (Nat × A) where
  parent a := ((plans a.1).parent a.2).map fun b => (a.1, b)
  files a := (plans a.1).files a.2
  record a := (plans a.1).record a.2
  record_id a := (plans a.1).record_id a.2
  record_parentId a := (plans a.1).record_parentId a.2
  record_children a := (plans a.1).record_children a.2

/-- The additions of the plan `i`. -/
def mark (i : Nat) (log : List A) : List (Nat × A) := log.map fun a => (i, a)

theorem mark_injective (i : Nat) : Function.Injective fun a : A => (i, a) :=
  fun _ _ h => (Prod.mk.inj h).2

theorem map_mark {B : Type} (i : Nat) (log : List A) (f : Nat × A → B) :
    (mark i log).map f = log.map fun a => f (i, a) := by
  simp [mark, Function.comp_def]

section Marks

variable {plans : Nat → Plan A} {i : Nat} {log : List (Nat × A)} {more : List A}
  (hmarks : ∀ a ∈ log, a.1 ≠ i)

theorem files_mark : (mark i more).flatMap (family plans).files = more.flatMap (plans i).files := by
  rw [mark, List.flatMap_map]
  rfl

include hmarks in
theorem mark_notMem (a : A) : (i, a) ∉ log := fun hmem => hmarks _ hmem rfl

include hmarks in
theorem nodup_append_mark (hlog : log.Nodup) (hmore : more.Nodup) :
    (log ++ mark i more).Nodup := by
  refine List.nodup_append.mpr ⟨hlog, hmore.map (mark_injective i), ?_⟩
  rintro a ha _ hmem rfl
  obtain ⟨b, -, rfl⟩ := List.mem_map.mp hmem
  exact hmarks _ ha rfl

include hmarks in
theorem WellOrdered.append_mark (hlog : (family plans).WellOrdered log)
    (hmore : (plans i).WellOrdered more) : (family plans).WellOrdered (log ++ mark i more) := by
  induction hmore with
  | nil => simpa [mark] using hlog
  | @snoc first news container before nodup filed known ih =>
      have hsplit : log ++ mark i (first ++ news) =
          (log ++ mark i first) ++ mark i news := by simp [mark]
      rw [hsplit]
      refine @Plan.WellOrdered.snoc _ _ _ _ (container.map fun a => (i, a)) ih ?_ ?_ ?_
      · rw [← hsplit]
        exact nodup_append_mark hmarks hlog.nodup nodup
      · intro a ha
        obtain ⟨b, hb, rfl⟩ := List.mem_map.mp ha
        simp only [family, filed b hb]
      · intro a ha
        obtain ⟨b, hb, rfl⟩ := Option.map_eq_some_iff.mp ha
        exact List.mem_append_right _ (List.mem_map_of_mem (known b hb))

/-- The second origin takes the ids up where the first log ends. -/
structure Resumes (plans : Nat → Plan A) (origin : Origin) (log : List (Nat × A)) (db : Db)
    (origin' : Origin) : Prop where
  db : origin'.db = db
  objectId : origin'.objectId = origin.objectId + log.length
  resourceId : origin'.resourceId =
    origin.resourceId + (log.flatMap (family plans).files).length
  moviesFolder : origin'.moviesFolder = origin.moviesFolder

variable {origin origin' : Origin} {db db' : Db}
  (hresumes : Resumes plans origin log db origin')

include hresumes in
theorem resources_mark : (family plans).resources origin (log ++ mark i more) =
    (family plans).resources origin log ++ (plans i).resources origin' more := by
  rw [resources_append, files_mark, ← hresumes.resourceId]
  rfl

variable [DecidableEq A]

include hmarks hresumes in
theorem key_mark (a : A) :
    key origin (log ++ mark i more) (i, a) = key origin' more a := by
  rw [key_append_right (mark_notMem hmarks a), mark, number_map (mark_injective i), key,
    hresumes.objectId]

include hmarks hresumes in
theorem parentKey_mark (container : Option A) :
    parentKey origin (log ++ mark i more) (container.map fun a => (i, a)) =
      parentKey origin' more container := by
  cases container with
  | none => exact hresumes.moviesFolder.symm
  | some a => exact key_mark hmarks hresumes a

include hmarks hresumes in
theorem fresh_mark (a : A) : (family plans).fresh origin (log ++ mark i more) (i, a) =
    (plans i).fresh origin' more a := by
  rw [fresh, key_mark hmarks hresumes, start_append_right (mark_notMem hmarks a), mark,
    blockStart_map (mark_injective i), ← mark, ← hresumes.resourceId]
  simp only [family]
  rw [parentKey_mark hmarks hresumes]
  rfl

variable (more) in
include hmarks hresumes in
/-- The children a container of the second log has been given. -/
theorem childKeys_mark (container : Option A) :
    (family plans).childKeys origin (log ++ mark i more) (container.map fun a => (i, a)) =
      (if container = none then (family plans).childKeys origin log none else []) ++
        (plans i).childKeys origin' more container := by
  have hfilter : ((mark i more).filter fun a => (family plans).parent a =
      container.map fun a => (i, a)) =
        mark i (more.filter fun a => (plans i).parent a = container) := by
    rw [mark, List.filter_map, mark]
    congr 1
    apply List.filter_congr
    intro a _
    simp only [Function.comp_apply, family]
    exact decide_eq_decide.mpr (Option.map_injective (mark_injective i)).eq_iff
  have hnew : (mark i (more.filter fun a => (plans i).parent a = container)).map
      (fun a => LibraryKey.objectKey (key origin (log ++ mark i more) a)) =
        (plans i).childKeys origin' more container := by
    rw [map_mark, childKeys]
    exact List.map_congr_left fun a _ => by rw [key_mark hmarks hresumes]
  rw [childKeys, List.filter_append, List.map_append, hfilter, hnew]
  congr 1
  cases container with
  | none =>
      rw [if_pos rfl, childKeys]
      exact List.map_congr_left fun a ha => by rw [key_append_left (List.mem_of_mem_filter ha)]
  | some b =>
      rw [if_neg (by simp), List.map_eq_nil_iff, List.filter_eq_nil_iff]
      intro a ha hparent
      have hsome : ((plans a.1).parent a.2).map (fun c => (a.1, c)) = some (i, b) := by
        simpa [family] using hparent
      obtain ⟨c, -, hc⟩ := Option.map_eq_some_iff.mp hsome
      exact hmarks a ha (congrArg Prod.fst hc)

include hmarks in
theorem childKeys_append_mark {a : Nat × A} (ha : a ∈ log) :
    (family plans).childKeys origin (log ++ mark i more) (some a) =
      (family plans).childKeys origin log (some a) := by
  have hnone : ((mark i more).filter fun b => (family plans).parent b = some a) = [] := by
    rw [List.filter_eq_nil_iff]
    intro b hb hparent
    obtain ⟨c, -, rfl⟩ := List.mem_map.mp hb
    have hsome : ((plans i).parent c).map (fun c => (i, c)) = some a := by
      simpa [family] using hparent
    obtain ⟨d, -, rfl⟩ := Option.map_eq_some_iff.mp hsome
    exact hmarks _ ha rfl
  rw [childKeys, List.filter_append, hnone, List.append_nil, childKeys]
  exact List.map_congr_left fun b hb => by rw [key_append_left (List.mem_of_mem_filter hb)]

include hmarks hresumes in
theorem object_mark (a : A) : (family plans).object origin (log ++ mark i more) (i, a) =
    (plans i).object origin' more a := by
  have hchildren := childKeys_mark more hmarks hresumes (some a)
  rw [Option.map_some, if_neg (by simp), List.nil_append] at hchildren
  rw [object, hchildren, fresh_mark hmarks hresumes, object]

include hmarks in
theorem object_append_mark (hlog : (family plans).WellOrdered log) {a : Nat × A} (ha : a ∈ log) :
    (family plans).object origin (log ++ mark i more) a = (family plans).object origin log a := by
  rw [object, childKeys_append_mark hmarks ha, fresh_append_left hlog ha, object]

variable (h : (family plans).Represents origin log db) (hlog : (family plans).WellOrdered log)
  (h' : (plans i).Represents origin' more db')

include h hresumes h' in
/-- What the first log filed, apart from `Movies`, is as it was. -/
theorem objectAt_resumed {a : Nat × A} (ha : a ∈ log) :
    objectAt db' (.objectKey (key origin log a)) = objectAt db (.objectKey (key origin log a)) := by
  have hrange := key_range origin ha
  have hlookup := h'.frame (.objectKey (key origin log a)) (by
      rw [hresumes.moviesFolder]
      simpa using key_ne_movies h ha) (by
    rw [mem_newKeys, not_or]
    refine ⟨?_, by simp⟩
    rintro ⟨b, hb, heq⟩
    have hlow := (key_range origin' hb).1
    rw [← LibraryKey.objectKey.inj heq, hresumes.objectId] at hlow
    omega)
  simp only [objectAt, hlookup, hresumes.db]

include hmarks hresumes in
theorem mem_newKeys_mark {k : LibraryKey} :
    k ∈ newKeys ((log ++ mark i more).map ((family plans).fresh origin (log ++ mark i more)))
        ((family plans).resources origin (log ++ mark i more)) ↔
      k ∈ newKeys (log.map ((family plans).fresh origin log))
          ((family plans).resources origin log) ∨
        k ∈ newKeys (more.map ((plans i).fresh origin' more))
          ((plans i).resources origin' more) := by
  have hobjects : (∃ a ∈ log ++ mark i more, k = .objectKey (key origin (log ++ mark i more) a)) ↔
      (∃ a ∈ log, k = .objectKey (key origin log a)) ∨
        ∃ b ∈ more, k = .objectKey (key origin' more b) := by
    constructor
    · rintro ⟨a, ha, rfl⟩
      rcases List.mem_append.mp ha with hmem | hmem
      · exact Or.inl ⟨a, hmem, by rw [key_append_left hmem]⟩
      · obtain ⟨b, hb, rfl⟩ := List.mem_map.mp hmem
        exact Or.inr ⟨b, hb, by rw [key_mark hmarks hresumes]⟩
    · rintro (⟨a, ha, rfl⟩ | ⟨b, hb, rfl⟩)
      · exact ⟨a, List.mem_append_left _ ha, by rw [key_append_left ha]⟩
      · exact ⟨(i, b), List.mem_append_right _ (List.mem_map_of_mem hb),
          by rw [key_mark hmarks hresumes]⟩
  rw [mem_newKeys, mem_newKeys, mem_newKeys, resources_mark hresumes, hobjects]
  simp only [List.mem_append, or_and_right, exists_or]
  exact or_or_or_comm

include hmarks hresumes h hlog h' in
/-- The second log filed on top of the first. -/
theorem Represents.resumed :
    (family plans).Represents origin (log ++ mark i more) db' where
  movies_below := h.movies_below
  object a ha := by
    rcases List.mem_append.mp ha with hmem | hmem
    · rw [key_append_left hmem, objectAt_resumed hresumes h h' hmem,
        object_append_mark hmarks hlog hmem]
      exact h.object a hmem
    · obtain ⟨b, hb, rfl⟩ := List.mem_map.mp hmem
      rw [key_mark hmarks hresumes, object_mark hmarks hresumes]
      exact h'.object b hb
  resource p hp := by
    rw [resources_mark hresumes] at hp
    rcases List.mem_append.mp hp with hmem | hmem
    · have hhigh := resource_range hmem
      refine (h'.frame _ (by simp) ?_).trans (hresumes.db ▸ h.resource p hmem)
      rw [mem_newKeys, not_or]
      refine ⟨by simp, ?_⟩
      rintro ⟨q, hq, heq⟩
      obtain ⟨r, hr, rfl⟩ := List.mem_map.mp hq
      have hlow := (fst_mem_numberFrom hr).1
      rw [hresumes.resourceId] at hlow
      rw [LibraryKey.resourceKey.inj heq] at hhigh
      simp only at hhigh
      omega
    · exact h'.resource p hmem
  movies := by
    obtain ⟨movies, hbase, hmovies, hstored⟩ := h.movies
    obtain ⟨movies', hbase', -, hstored'⟩ := h'.movies
    rw [hresumes.moviesFolder] at hbase' hstored'
    rw [hresumes.db, hstored] at hbase'
    obtain rfl := Option.some.inj hbase'
    refine ⟨movies, hbase, hmovies, ?_⟩
    have hchildren := childKeys_mark more hmarks hresumes none
    rw [Option.map_none, if_pos rfl] at hchildren
    rw [hstored', MediaObject.withChildren_withChildren, hchildren]
  frame k hmovies hnew := by
    rw [mem_newKeys_mark hmarks hresumes, not_or] at hnew
    rw [h'.frame k (by rwa [hresumes.moviesFolder]) hnew.2, hresumes.db]
    exact h.frame k hmovies hnew.1

end Marks

end Plan

end Eems
