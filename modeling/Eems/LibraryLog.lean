/-
A library described by the list of what was filed in it: the ids, the records
and the listings of the containers all follow from the order of filing.
-/
import Eems.Library

namespace Eems

open Numbering Library

/-- The object with more children, as `put_items` writes a container back. -/
def MediaObject.withChildren (object : MediaObject) (keys : List LibraryKey) : MediaObject :=
  if keys = [] then object
  else serializeContainer (object.children ++ keys) (containerMetaOf object)

@[simp] theorem MediaObject.withChildren_nil (object : MediaObject) :
    object.withChildren [] = object := rfl

theorem MediaObject.withChildren_withChildren (object : MediaObject)
    (first second : List LibraryKey) :
    (object.withChildren first).withChildren second = object.withChildren (first ++ second) := by
  by_cases hfirst : first = []
  · simp [hfirst]
  · by_cases hsecond : second = []
    · simp [hsecond]
    · simp [withChildren, hfirst, hsecond]

@[simp] theorem MediaObject.children_withChildren (object : MediaObject)
    (keys : List LibraryKey) : (object.withChildren keys).children = object.children ++ keys := by
  unfold withChildren
  split <;> simp [*]

@[simp] theorem MediaObject.id_withChildren (object : MediaObject) (keys : List LibraryKey) :
    (object.withChildren keys).id = object.id := by
  unfold withChildren
  split <;> rfl

@[simp] theorem MediaObject.parentId_withChildren (object : MediaObject)
    (keys : List LibraryKey) : (object.withChildren keys).parentId = object.parentId := by
  unfold withChildren
  split <;> rfl

theorem MediaObject.isContainer_withChildren {object : MediaObject} {keys : List LibraryKey}
    (h : object.IsContainer ∨ keys ≠ []) : (object.withChildren keys).IsContainer := by
  unfold withChildren
  split
  · exact h.resolve_right (not_not_intro (by assumption))
  · exact isContainer_serializeContainer _ _

theorem extendedParent_eq_withChildren {old : MediaObject} {items : List MediaObject}
    (hitems : items ≠ []) : extendedParent old items =
      old.withChildren (items.map fun item => .objectKey item.id) := by
  simp [extendedParent, MediaObject.withChildren, hitems]

/-- What is to be filed: the container of each addition (`none` is the
`Movies` container), the files stored with it, and its record, given its id,
the id of its first resource and the id of its container. -/
@[ext]
structure Plan (A : Type) where
  parent : A → Option A
  files : A → List FileInfo
  record : A → Int → Int → ObjectKey → MediaObject
  record_id : ∀ a id start parentId, (record a id start parentId).id = ⟨id⟩
  record_parentId : ∀ a id start parentId, (record a id start parentId).parentId = parentId
  record_children : ∀ a id start parentId, (record a id start parentId).children = []

/-- The database before the first addition, the next ids, and the `Movies`
container. -/
structure Origin where
  db : Db
  objectId : Int
  resourceId : Int
  moviesFolder : ObjectKey

namespace Plan

variable {A : Type} (plan : Plan A) (origin : Origin) (log : List A)

/-- Each addition is listed once, after its container. -/
inductive WellOrdered : List A → Prop
  | nil : WellOrdered []
  | snoc {log news : List A} {container : Option A} (before : WellOrdered log)
      (nodup : (log ++ news).Nodup) (filed : ∀ a ∈ news, plan.parent a = container)
      (known : ∀ a, container = some a → a ∈ log) : WellOrdered (log ++ news)

def width (a : A) : Nat := (plan.files a).length

def resources : List (ResourceKey × Resource) :=
  ObjectComposer.numberedResources origin.resourceId (log.flatMap plan.files)

section

variable {plan origin log}

theorem WellOrdered.nodup {log : List A} (h : plan.WellOrdered log) : log.Nodup := by
  cases h with
  | nil => exact List.nodup_nil
  | snoc _ nodup _ _ => exact nodup

theorem WellOrdered.parent_mem {log : List A} (h : plan.WellOrdered log) {a b : A}
    (ha : a ∈ log) (hparent : plan.parent a = some b) : b ∈ log := by
  induction h with
  | nil => simp at ha
  | snoc before nodup filed known ih =>
      rcases List.mem_append.mp ha with hmem | hmem
      · exact List.mem_append_left _ (ih hmem)
      · exact List.mem_append_left _ (known b ((filed a hmem).symm.trans hparent))

theorem resources_append {log news : List A} : plan.resources origin (log ++ news) =
    plan.resources origin log ++ ObjectComposer.numberedResources
      (origin.resourceId + (log.flatMap plan.files).length) (news.flatMap plan.files) := by
  simp [resources, ObjectComposer.numberedResources, numberFrom_append]

/-- The resources of the news. -/
def newResources (plan : Plan A) (origin : Origin) (log news : List A) :
    List (ResourceKey × Resource) :=
  ObjectComposer.numberedResources (origin.resourceId + (log.flatMap plan.files).length)
    (news.flatMap plan.files)

theorem mem_resources_append {log news : List A} {p : ResourceKey × Resource} :
    p ∈ plan.resources origin (log ++ news) ↔
      p ∈ plan.resources origin log ∨ p ∈ newResources plan origin log news := by
  rw [resources_append, List.mem_append, newResources]

theorem resource_range {log : List A} {p : ResourceKey × Resource}
    (hp : p ∈ plan.resources origin log) :
    p.1.id < origin.resourceId + (log.flatMap plan.files).length := by
  obtain ⟨q, hq, rfl⟩ := List.mem_map.mp hp
  exact (fst_mem_numberFrom hq).2

theorem newResource_range {log news : List A} {p : ResourceKey × Resource}
    (hp : p ∈ newResources plan origin log news) :
    origin.resourceId + (log.flatMap plan.files).length ≤ p.1.id := by
  obtain ⟨q, hq, rfl⟩ := List.mem_map.mp hp
  exact (fst_mem_numberFrom hq).1

end

variable [DecidableEq A]

/-- The key of an addition: they are numbered in the order of filing. -/
def key (origin : Origin) (log : List A) (a : A) : ObjectKey := ⟨number origin.objectId log a⟩

def parentKey (origin : Origin) (log : List A) : Option A → ObjectKey
  | none => origin.moviesFolder
  | some a => key origin log a

/-- The id of the first resource of an addition. -/
def start (a : A) : Int := blockStart plan.width origin.resourceId log a

/-- What the log lists below a container. -/
def childKeys (container : Option A) : List LibraryKey :=
  (log.filter fun a => plan.parent a = container).map fun a => .objectKey (key origin log a)

/-- The record of an addition when it is filed. -/
def fresh (a : A) : MediaObject :=
  plan.record a (key origin log a).id (plan.start origin log a)
    (parentKey origin log (plan.parent a))

def object (a : A) : MediaObject :=
  (plan.fresh origin log a).withChildren (plan.childKeys origin log (some a))

/-- The database holds exactly what the log says, on top of the origin. -/
structure Represents (db : Db) : Prop where
  movies_below : origin.moviesFolder.id < origin.objectId
  object : ∀ a ∈ log,
    objectAt db (.objectKey (key origin log a)) = some (plan.object origin log a)
  resource : ∀ p ∈ plan.resources origin log,
    db.lookup (.resourceKey p.1) = some (.resource p.2)
  movies : ∃ movies, objectAt origin.db (.objectKey origin.moviesFolder) = some movies ∧
    movies.IsContainer ∧ objectAt db (.objectKey origin.moviesFolder) =
      some (movies.withChildren (plan.childKeys origin log none))
  frame : ∀ key, key ≠ .objectKey origin.moviesFolder →
    key ∉ newKeys (log.map (plan.fresh origin log)) (plan.resources origin log) →
    db.lookup key = origin.db.lookup key

variable {plan origin log}

@[simp] theorem fresh_id (a : A) : (plan.fresh origin log a).id = key origin log a :=
  plan.record_id _ _ _ _

@[simp] theorem fresh_parentId (a : A) :
    (plan.fresh origin log a).parentId = parentKey origin log (plan.parent a) :=
  plan.record_parentId _ _ _ _

@[simp] theorem object_parentId (a : A) :
    (plan.object origin log a).parentId = parentKey origin log (plan.parent a) := by
  simp [object]

@[simp] theorem object_children (a : A) :
    (plan.object origin log a).children = plan.childKeys origin log (some a) := by
  simp [object, fresh, plan.record_children]

theorem key_inj {a b : A} (ha : a ∈ log) (h : key origin log a = key origin log b) : a = b :=
  number_inj ha (congrArg ObjectKey.id h)

variable (origin) in
theorem key_range {a : A} (ha : a ∈ log) : origin.objectId ≤ (key origin log a).id ∧
    (key origin log a).id < origin.objectId + log.length := number_lt ha

section Append

variable {news : List A} {container : Option A}

theorem key_append_left {a : A} (ha : a ∈ log) :
    key origin (log ++ news) a = key origin log a := by
  rw [key, key, number_append_left ha]

theorem start_append_right {a : A} (ha : a ∉ log) :
    plan.start origin (log ++ news) a = blockStart plan.width
      (origin.resourceId + (log.flatMap plan.files).length) news a := by
  rw [start, blockStart_append_right ha, List.length_flatMap]
  rfl

theorem key_append_right {a : A} (ha : a ∉ log) :
    key origin (log ++ news) a = ⟨number (origin.objectId + log.length) news a⟩ := by
  rw [key, number_append_right ha]

theorem parentKey_append_left (h : ∀ a, container = some a → a ∈ log) :
    parentKey origin (log ++ news) container = parentKey origin log container := by
  cases container with
  | none => rfl
  | some a => exact key_append_left (h a rfl)

theorem fresh_append_left (h : plan.WellOrdered log) {a : A} (ha : a ∈ log) :
    plan.fresh origin (log ++ news) a = plan.fresh origin log a := by
  rw [fresh, fresh, key_append_left ha, start, start, blockStart_append_left ha,
    parentKey_append_left fun b hb => h.parent_mem ha hb]

variable (hfiled : ∀ a ∈ news, plan.parent a = container)

include hfiled in
/-- Only the container of the news gains children. -/
theorem childKeys_append (other : Option A) :
    plan.childKeys origin (log ++ news) other = plan.childKeys origin log other ++
      if other = container then news.map fun a => .objectKey (key origin (log ++ news) a)
      else [] := by
  have hold : (log.filter fun a => plan.parent a = other).map
      (fun a => LibraryKey.objectKey (key origin (log ++ news) a)) =
      plan.childKeys origin log other :=
    List.map_congr_left fun a ha => by rw [key_append_left (List.mem_of_mem_filter ha)]
  rw [childKeys, List.filter_append, List.map_append, hold]
  congr 1
  by_cases hother : other = container
  · rw [if_pos hother, List.filter_eq_self.mpr]
    intro a ha
    simpa [hother] using hfiled a ha
  · rw [if_neg hother, List.filter_eq_nil_iff.mpr]
    · rfl
    · intro a ha
      simpa [hfiled a ha] using Ne.symm hother

theorem mem_newKeys {key' : LibraryKey} :
    key' ∈ newKeys (log.map (plan.fresh origin log)) (plan.resources origin log) ↔
      (∃ a ∈ log, key' = .objectKey (key origin log a)) ∨
        ∃ p ∈ plan.resources origin log, key' = .resourceKey p.1 := by
  simp [newKeys, eq_comm, or_comm]

theorem objectKey_mem_news {k : ObjectKey} :
    LibraryKey.objectKey k ∈ newKeys (news.map (plan.fresh origin (log ++ news)))
        (newResources plan origin log news) ↔
      ∃ a ∈ news, k = key origin (log ++ news) a := by
  simp [newKeys, eq_comm]

theorem resourceKey_mem_news {k : ResourceKey} :
    LibraryKey.resourceKey k ∈ newKeys (news.map (plan.fresh origin (log ++ news)))
        (newResources plan origin log news) ↔
      ∃ p ∈ newResources plan origin log news, k = p.1 := by
  simp [newKeys, eq_comm]

variable (origin) in
theorem key_news_range (hnodup : (log ++ news).Nodup) {a : A} (ha : a ∈ news) :
    origin.objectId + log.length ≤ (key origin (log ++ news) a).id := by
  have hnot : a ∉ log := fun hmem => (List.nodup_append.mp hnodup).2.2 a hmem a ha rfl
  rw [key_append_right hnot]
  exact (number_lt ha).1

include hfiled in
/-- Nothing is filed below an addition before or together with it. -/
theorem childKeys_news (hlog : plan.WellOrdered log) (hnodup : (log ++ news).Nodup)
    (hknown : ∀ a, container = some a → a ∈ log) {a : A} (ha : a ∈ news) :
    plan.childKeys origin (log ++ news) (some a) = [] := by
  have hnot : a ∉ log := fun hmem => (List.nodup_append.mp hnodup).2.2 a hmem a ha rfl
  rw [childKeys_append hfiled, if_neg fun h => hnot (hknown a h.symm), List.append_nil,
    childKeys, List.map_eq_nil_iff, List.filter_eq_nil_iff]
  intro b hb hparent
  exact hnot (hlog.parent_mem hb (by simpa using hparent))

include hfiled in
/-- The container of the news as the longer log has it. -/
theorem extendedParent_eq (hnews : news ≠ []) {object : MediaObject} :
    extendedParent (object.withChildren (plan.childKeys origin log container))
        (news.map (plan.fresh origin (log ++ news))) =
      object.withChildren (plan.childKeys origin (log ++ news) container) := by
  rw [extendedParent_eq_withChildren (by simpa using hnews),
    MediaObject.withChildren_withChildren, childKeys_append hfiled, if_pos rfl, List.map_map]
  simp [Function.comp_def]

section Represents

variable {db after : Db} {old : MediaObject} (h : plan.Represents origin log db)
  (hlog : plan.WellOrdered log) (hnews : news ≠ []) (hnodup : (log ++ news).Nodup)
  (hknown : ∀ a, container = some a → a ∈ log)
  (hold : objectAt db (.objectKey (parentKey origin log container)) = some old)
  (hafter : FreshBatch.Filed db (parentKey origin log container)
    (news.map (plan.fresh origin (log ++ news))) (newResources plan origin log news)
    (extendedParent old (news.map (plan.fresh origin (log ++ news)))) after)

include hnodup hafter in
theorem objectAt_append {k : ObjectKey} (hne : k ≠ parentKey origin log container)
    (hlow : k.id < origin.objectId + log.length) :
    objectAt after (.objectKey k) = objectAt db (.objectKey k) := by
  have hframe := hafter.frame (.objectKey k) (by simpa using hne) (by
    rw [objectKey_mem_news]
    rintro ⟨a, ha, rfl⟩
    have := key_news_range origin hnodup ha
    omega)
  simp only [objectAt, hframe]

include h in
theorem key_ne_movies {a : A} (ha : a ∈ log) : key origin log a ≠ origin.moviesFolder := by
  intro heq
  have hlow := h.movies_below
  have hrange := (key_range origin ha).1
  rw [heq] at hrange
  omega

include hfiled h hlog hnews hnodup hold hafter in
theorem object_append_left {a : A} (ha : a ∈ log) :
    objectAt after (.objectKey (key origin (log ++ news) a)) =
      some (plan.object origin (log ++ news) a) := by
  have hfresh : plan.fresh origin (log ++ news) a = plan.fresh origin log a :=
    fresh_append_left hlog ha
  rw [key_append_left ha]
  by_cases hcontainer : container = some a
  · subst hcontainer
    obtain rfl := Option.some.inj ((h.object a ha).symm.trans hold)
    have hparentAt := objectAt_eq_some_iff.mpr hafter.container
    rw [object, extendedParent_eq hfiled hnews] at hparentAt
    rw [object, hfresh]
    exact hparentAt
  · have hne : key origin log a ≠ parentKey origin log container := by
      cases container with
      | none => exact key_ne_movies h ha
      | some b => exact fun heq => hcontainer (congrArg some (key_inj ha heq).symm)
    rw [objectAt_append hnodup hafter hne (key_range origin ha).2, h.object a ha, object, object,
      hfresh, childKeys_append hfiled, if_neg (Ne.symm hcontainer), List.append_nil]

include hfiled hlog hnodup hknown hafter in
theorem object_append_right {a : A} (ha : a ∈ news) :
    objectAt after (.objectKey (key origin (log ++ news) a)) =
      some (plan.object origin (log ++ news) a) := by
  have hitem := hafter.item _ (List.mem_map_of_mem ha)
  rw [fresh_id] at hitem
  rw [objectAt_eq_some_iff.mpr hitem, object, childKeys_news hfiled hlog hnodup hknown ha,
    MediaObject.withChildren_nil]

include hafter h in
theorem resource_append {p : ResourceKey × Resource}
    (hp : p ∈ plan.resources origin (log ++ news)) :
    after.lookup (.resourceKey p.1) = some (.resource p.2) := by
  rcases mem_resources_append.mp hp with hmem | hmem
  · refine (hafter.frame _ (by simp) ?_).trans (h.resource p hmem)
    rw [resourceKey_mem_news]
    rintro ⟨q, hq, heq⟩
    have hlow := resource_range hmem
    have hhigh := newResource_range hq
    rw [heq] at hlow
    omega
  · exact hafter.resource p hmem

include hfiled h hnews hnodup hknown hold hafter in
theorem movies_append {movies : MediaObject}
    (hstored : objectAt db (.objectKey origin.moviesFolder) =
      some (movies.withChildren (plan.childKeys origin log none))) :
    objectAt after (.objectKey origin.moviesFolder) =
      some (movies.withChildren (plan.childKeys origin (log ++ news) none)) := by
  cases container with
  | none =>
      obtain rfl := Option.some.inj (hstored.symm.trans hold)
      rw [← extendedParent_eq hfiled hnews]
      exact objectAt_eq_some_iff.mpr hafter.container
  | some a =>
      have hlow := h.movies_below
      have hne := key_ne_movies h (hknown a rfl)
      rw [objectAt_append hnodup hafter (Ne.symm hne) (by omega), hstored,
        childKeys_append hfiled]
      simp

include h hknown hafter in
theorem lookup_append {k : LibraryKey} (hmovies : k ≠ .objectKey origin.moviesFolder)
    (hnew : k ∉ newKeys ((log ++ news).map (plan.fresh origin (log ++ news)))
      (plan.resources origin (log ++ news))) : after.lookup k = origin.db.lookup k := by
  rw [mem_newKeys, not_or] at hnew
  obtain ⟨hobjects, hresources⟩ := hnew
  have hparent : k ≠ .objectKey (parentKey origin log container) := by
    cases container with
    | none => exact hmovies
    | some a =>
        intro heq
        refine hobjects ⟨a, List.mem_append_left _ (hknown a rfl), ?_⟩
        rw [key_append_left (hknown a rfl)]
        exact heq
  have hnews : k ∉ newKeys (news.map (plan.fresh origin (log ++ news)))
      (newResources plan origin log news) := by
    cases k with
    | objectKey k =>
        rw [objectKey_mem_news]
        rintro ⟨a, ha, rfl⟩
        exact hobjects ⟨a, List.mem_append_right _ ha, rfl⟩
    | resourceKey k =>
        rw [resourceKey_mem_news]
        rintro ⟨p, hp, rfl⟩
        exact hresources ⟨p, mem_resources_append.mpr (Or.inr hp), rfl⟩
  rw [hafter.frame k hparent hnews, h.frame k hmovies]
  rw [mem_newKeys, not_or]
  constructor
  · rintro ⟨a, ha, rfl⟩
    exact hobjects ⟨a, List.mem_append_left _ ha, by rw [key_append_left ha]⟩
  · rintro ⟨p, hp, rfl⟩
    exact hresources ⟨p, mem_resources_append.mpr (Or.inl hp), rfl⟩

include hfiled h hlog hnews hnodup hknown hold hafter in
/-- Filing what the log says next represents the longer log. -/
theorem Represents.append : plan.Represents origin (log ++ news) after where
  movies_below := h.movies_below
  object a ha := by
    rcases List.mem_append.mp ha with hmem | hmem
    · exact object_append_left hfiled h hlog hnews hnodup hold hafter hmem
    · exact object_append_right hfiled hlog hnodup hknown hafter hmem
  resource p hp := resource_append h hafter hp
  movies := by
    obtain ⟨movies, hbase, hmovies, hstored⟩ := h.movies
    exact ⟨movies, hbase, hmovies,
      movies_append hfiled h hnews hnodup hknown hold hafter hstored⟩
  frame k hmovies hnew := lookup_append h hknown hafter hmovies hnew

end Represents

end Append

/-- The record of an addition's file stands under the id its place gives it. -/
theorem Represents.resource_at {db : Db} (h : plan.Represents origin log db)
    (hnodup : log.Nodup) {a : A} (ha : a ∈ log) {i : Nat} {info : FileInfo}
    (hinfo : (plan.files a)[i]? = some info) :
    db.lookup (.resourceKey ⟨plan.start origin log a + i⟩) =
      some (.resource (resourceOf info)) := by
  refine h.resource (⟨_⟩, resourceOf info) (List.mem_map.mpr ⟨(_, info), ?_, rfl⟩)
  rw [numberFrom_flatMap hnodup]
  refine List.mem_flatMap.mpr ⟨a, ha, List.mem_of_getElem? (i := i) ?_⟩
  rw [getElem?_numberFrom, hinfo]
  rfl

/-- Nothing filed yet. -/
theorem Represents.nil {movies : MediaObject} (hbelow : origin.moviesFolder.id < origin.objectId)
    (hmovies : objectAt origin.db (.objectKey origin.moviesFolder) = some movies)
    (hcontainer : movies.IsContainer) : plan.Represents origin [] origin.db where
  movies_below := hbelow
  object a ha := by simp at ha
  resource p hp := by simp [resources, ObjectComposer.numberedResources] at hp
  movies := ⟨movies, hmovies, hcontainer, by simpa [childKeys] using hmovies⟩
  frame _ _ _ := rfl

end Plan

end Eems
