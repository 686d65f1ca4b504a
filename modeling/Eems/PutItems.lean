/-
What `put_items` does to a container, call after call: the listing grows, the
rest of its record comes through every re-encoding, and nothing else moves.
-/
import Eems.FreshBatches
import Eems.Opening

namespace Eems

open Hoare Library

/-- The items and the resources of one `put_items` call. -/
structure PutCall where
  items : List MediaObject
  resources : List (ResourceKey × Resource)

namespace PutCall

def keys (call : PutCall) : List LibraryKey := newKeys call.items call.resources

def itemKeys (call : PutCall) : List LibraryKey :=
  call.items.map fun item => .objectKey item.id

end PutCall

/-- `put_items` calls on one container that return after their writes have
been applied. -/
inductive Puts (parent : ObjectKey) : StoreService → List PutCall → StoreService → Prop
  | nil {store : StoreService} : Puts parent store [] store
  | cons {store mid next : StoreService} {call : PutCall} {rest : List PutCall}
      (returns : putItems parent call.items call.resources store = .ok ⟨⟩ mid)
      (applied : mid.journal ≠ store.journal) (later : Puts parent mid rest next) :
      Puts parent store (call :: rest) next

/-- A container as it is written by `open_db`, `create_container` and
`put_items`, or by `get_movies_folder_id`. -/
def WrittenContainer (object : MediaObject) : Prop :=
  (∃ contents containerMeta, object = serializeContainer contents containerMeta) ∨
    ∃ newKey rootKey, object = moviesFolderObject newKey rootKey

/-- All of a container's record but its listing. -/
structure SameHeader (left right : MediaObject) : Prop where
  id : right.id = left.id
  parentId : right.parentId = left.parentId
  dcTitle : right.dcTitle = left.dcTitle
  upnpClass : right.upnpClass = left.upnpClass
  artwork : right.artwork = left.artwork
  dcDate : right.dcDate = left.dcDate
  isContainer : left.IsContainer ∧ right.IsContainer

theorem SameHeader.trans {first second third : MediaObject} (h : SameHeader first second)
    (h' : SameHeader second third) : SameHeader first third :=
  ⟨h'.id.trans h.id, h'.parentId.trans h.parentId, h'.dcTitle.trans h.dcTitle,
    h'.upnpClass.trans h.upnpClass, h'.artwork.trans h.artwork, h'.dcDate.trans h.dcDate,
    h.isContainer.1, h'.isContainer.2⟩

/-- One round of decoding and encoding. -/
def reencode (object : MediaObject) : MediaObject :=
  serializeContainer object.children (containerMetaOf object)

theorem WrittenContainer.isContainer {object : MediaObject} (h : WrittenContainer object) :
    object.IsContainer := by
  rcases h with ⟨contents, containerMeta, rfl⟩ | ⟨newKey, rootKey, rfl⟩
  · exact isContainer_serializeContainer _ _
  · exact ⟨_, rfl⟩

/-- Whatever the new listing is, the header is encoded as it was. -/
theorem WrittenContainer.sameHeader {object : MediaObject} (h : WrittenContainer object)
    (contents : List LibraryKey) :
    SameHeader object (serializeContainer contents (containerMetaOf object)) := by
  have hcontainer := h.isContainer
  have hencoded := isContainer_serializeContainer contents (containerMetaOf object)
  rcases h with ⟨old, containerMeta, rfl⟩ | ⟨newKey, rootKey, rfl⟩
  · rw [containerMetaOf_serializeContainer] at hencoded ⊢
    exact ⟨rfl, rfl, rfl, rfl, rfl, rfl, hcontainer, hencoded⟩
  · refine ⟨rfl, rfl, ?_, ?_, rfl, rfl, hcontainer, hencoded⟩
    · simp [serializeContainer, containerMetaOf, moviesFolderObject]
    · simp [serializeContainer, containerMetaOf, moviesFolderObject]

theorem WrittenContainer.of_serializeContainer (contents : List LibraryKey)
    (containerMeta : ContainerMeta) :
    WrittenContainer (serializeContainer contents containerMeta) :=
  Or.inl ⟨contents, containerMeta, rfl⟩

/-- Re-encoding a container any number of times changes nothing in it. -/
theorem WrittenContainer.iterate_reencode {object : MediaObject} (h : WrittenContainer object)
    (rounds : Nat) : SameHeader object (reencode^[rounds] object) ∧
      (reencode^[rounds] object).children = object.children := by
  induction rounds generalizing object with
  | zero => exact ⟨⟨rfl, rfl, rfl, rfl, rfl, rfl, h.isContainer, h.isContainer⟩, rfl⟩
  | succ rounds ih =>
      have hround := h.sameHeader object.children
      obtain ⟨hheader, hchildren⟩ := ih (WrittenContainer.of_serializeContainer object.children
        (containerMetaOf object))
      rw [Function.iterate_succ_apply]
      exact ⟨hround.trans hheader, hchildren.trans (children_serializeContainer _ _)⟩

/-- A call whose write is applied files its items and resources. -/
theorem putItems_filed {parent : ObjectKey} {call : PutCall} {store next : StoreService}
    (hreturns : putItems parent call.items call.resources store = .ok ⟨⟩ next)
    (happlied : next.journal ≠ store.journal) (hnodup : call.keys.Nodup)
    (habsent : ∀ key ∈ call.keys, store.db.lookup key = none) :
    ∃ old, objectAt store.db (.objectKey parent) = some old ∧
      FreshBatch.Filed store.db parent call.items call.resources
        (serializeContainer (old.children ++ call.itemKeys) (containerMetaOf old)) next.db := by
  rcases putItems_cases parent call.items call.resources store with
    ⟨error, other, hput, -⟩ | ⟨other, hput, -, hjournal⟩ |
      ⟨containerData, containerMeta, other, hdecode, -, hput, hdb, -⟩
  · simp [hput] at hreturns
  · rw [hput] at hreturns
    obtain ⟨-, rfl⟩ := EStateM.Result.ok.inj hreturns
    exact absurd hjournal happlied
  · rw [hput] at hreturns
    obtain ⟨-, rfl⟩ := EStateM.Result.ok.inj hreturns
    obtain ⟨old, hold, -, rfl, rfl⟩ := deserializeContainer_eq_ok_iff.mp hdecode
    rw [hdb]
    exact ⟨old, objectAt_eq_some_iff.mpr hold,
      FreshBatch.filed_of_absent hnodup habsent hold _ _⟩

/-- What a sequence of calls leaves in the store. -/
structure Appended (parent : ObjectKey) (old : MediaObject) (calls : List PutCall)
    (before after : Db) : Prop where
  listed : StoreService.list after parent =
    .ok ⟨after, old.children ++ calls.flatMap PutCall.itemKeys⟩
  item : ∀ call ∈ calls, ∀ item ∈ call.items,
    after.lookup (.objectKey item.id) = some (.mediaObject item)
  resource : ∀ call ∈ calls, ∀ p ∈ call.resources,
    after.lookup (.resourceKey p.1) = some (.resource p.2)
  header : ∃ container, objectAt after (.objectKey parent) = some container ∧
    ∀ rounds, SameHeader old (reencode^[rounds] container)
  frame : ∀ key, key ≠ .objectKey parent → key ∉ calls.flatMap PutCall.keys →
    after.lookup key = before.lookup key

/-- Calls under keys that are not yet stored append to the container and touch
nothing else. -/
theorem puts_appended {parent : ObjectKey} {store next : StoreService} {calls : List PutCall}
    (h : Puts parent store calls next) {old : MediaObject}
    (hstored : objectAt store.db (.objectKey parent) = some old) (hwritten : WrittenContainer old)
    (hnodup : (calls.flatMap PutCall.keys).Nodup)
    (habsent : ∀ key ∈ calls.flatMap PutCall.keys, store.db.lookup key = none) :
    Appended parent old calls store.db next.db := by
  induction h generalizing old with
  | nil =>
      refine ⟨?_, by simp, by simp,
        ⟨old, hstored, fun rounds => (hwritten.iterate_reencode rounds).1⟩, fun _ _ _ => rfl⟩
      simpa using list_eq_ok_iff.mpr ⟨old, hstored, hwritten.isContainer, rfl⟩
  | @cons store mid next call rest hreturns happlied hlater ih =>
      rw [List.flatMap_cons, List.nodup_append] at hnodup
      obtain ⟨hnodupCall, hnodupRest, hapart⟩ := hnodup
      have habsentCall : ∀ key ∈ call.keys, store.db.lookup key = none := fun key hkey =>
        habsent key (List.mem_flatMap_of_mem List.mem_cons_self hkey)
      have habsentRest : ∀ key ∈ rest.flatMap PutCall.keys, store.db.lookup key = none :=
        fun key hkey => habsent key (List.mem_append_right _ hkey)
      have hparent : ∀ key, store.db.lookup key = none → key ≠ .objectKey parent := by
        rintro _ hnone rfl
        exact Option.some_ne_none _ ((objectAt_eq_some_iff.mp hstored).symm.trans hnone)
      obtain ⟨found, hfound, hfiled⟩ := putItems_filed hreturns happlied hnodupCall habsentCall
      obtain rfl := Option.some.inj (hstored.symm.trans hfound)
      have hrest := ih (objectAt_eq_some_iff.mpr hfiled.container)
        (WrittenContainer.of_serializeContainer _ _) hnodupRest fun key hkey => by
          rw [hfiled.frame key (hparent key (habsentRest key hkey))
            fun hmem => hapart key hmem key hkey rfl]
          exact habsentRest key hkey
      -- what this call has filed is left alone by the calls after it
      have hkept : ∀ key ∈ call.keys, next.db.lookup key = mid.db.lookup key := fun key hkey =>
        hrest.frame key (hparent key (habsentCall key hkey)) fun hmem =>
          hapart key hkey key hmem rfl
      refine ⟨?_, ?_, ?_, ?_, ?_⟩
      · simpa using hrest.listed
      · intro other hother item hitem
        rcases List.mem_cons.mp hother with rfl | hother
        · rw [hkept _ (List.mem_append_right _ (List.mem_map_of_mem hitem))]
          exact hfiled.item item hitem
        · exact hrest.item other hother item hitem
      · intro other hother p hp
        rcases List.mem_cons.mp hother with rfl | hother
        · rw [hkept _ (List.mem_append_left _ (List.mem_map_of_mem hp))]
          exact hfiled.resource p hp
        · exact hrest.resource other hother p hp
      · obtain ⟨container, hcontainer, hheader⟩ := hrest.header
        exact ⟨container, hcontainer, fun rounds =>
          (hwritten.sameHeader _).trans (hheader rounds)⟩
      · intro key hkey hnotNew
        rw [List.flatMap_cons, List.mem_append, not_or] at hnotNew
        rw [hrest.frame key hkey hnotNew.2, hfiled.frame key hkey hnotNew.1]

theorem deserializeContainer_of_objectAt {db : Db} {parent : ObjectKey} {old : MediaObject}
    (hstored : objectAt db (.objectKey parent) = some old) (hcontainer : old.IsContainer) :
    deserializeContainer db (.objectKey parent) = .ok (old.children, containerMetaOf old) :=
  deserializeContainer_eq_ok_iff.mpr
    ⟨old, objectAt_eq_some_iff.mp hstored, hcontainer, rfl, rfl⟩

/-- The container is put last. -/
theorem objectAt_write_putBatch (db : Db) (parent : ObjectKey) (old : MediaObject)
    (items : List MediaObject) (resources : List (ResourceKey × Resource)) :
    objectAt (db.write (putBatch parent items resources old.children (containerMetaOf old)))
      (.objectKey parent) = some (extendedParent old items) := by
  rw [objectAt_eq_some_iff, putBatch, OrderedMap.write_append]
  exact OrderedMap.lookup_insert_self _ _ _

/-- Calls whose items all name the container as their parent go through while
the writes succeed. -/
theorem exists_puts {parent : ObjectKey} {calls : List PutCall} {store : StoreService}
    (houtcomes : AllApplied store.outcomes) {old : MediaObject}
    (hstored : objectAt store.db (.objectKey parent) = some old) (hcontainer : old.IsContainer)
    (hparents : ∀ call ∈ calls, ∀ item ∈ call.items, item.parentId = parent) :
    ∃ next, Puts parent store calls next := by
  induction calls generalizing store old with
  | nil => exact ⟨store, .nil⟩
  | cons call rest ih =>
      have hdecode := deserializeContainer_of_objectAt hstored hcontainer
      have hput := putItems_of_allApplied call.items call.resources hdecode
        (hparents call List.mem_cons_self) houtcomes
      obtain ⟨next, hnext⟩ := @ih ⟨_, _, store.outcomes.tail⟩ houtcomes.tail
        (extendedParent old call.items) (objectAt_write_putBatch store.db parent old _ _)
        (isContainer_serializeContainer _ _)
        fun other hother => hparents other (List.mem_cons_of_mem call hother)
      exact ⟨next, .cons hput (by simp) hnext⟩

/-- `Movies` is put below the new root, whose title is empty, and then a second
container with a resource. -/
def filmCalls : List PutCall :=
  [⟨[moviesFolderObject ⟨1⟩ ⟨0⟩], []⟩,
    ⟨[serializeContainer [] ⟨⟨2⟩, ⟨0⟩, ascii "films", upnpContainerClass,
      [(.resourceKey ⟨0⟩, .poster)]⟩],
      [(⟨0⟩, resourceOf ⟨ascii "image/jpeg", ascii "poster.jpg"⟩)]⟩]

theorem puts_appended_films : ∃ next,
    Puts ⟨0⟩ ⟨newDb, [], []⟩ filmCalls next ∧
      Appended ⟨0⟩ (serializeContainer [] rootContainerMeta) filmCalls newDb next.db := by
  have hroot : objectAt newDb (.objectKey ⟨0⟩) = some (serializeContainer [] rootContainerMeta) :=
    objectAt_newDb.mpr ⟨rfl, rfl⟩
  obtain ⟨next, hnext⟩ := @exists_puts ⟨0⟩ filmCalls ⟨newDb, [], []⟩ (by simp [AllApplied]) _ hroot
    (isContainer_serializeContainer _ _) (by decide)
  refine ⟨next, hnext, puts_appended hnext hroot (WrittenContainer.of_serializeContainer _ _)
    (by decide) fun key hkey => ?_⟩
  have hne : key ≠ rootKey := by
    rintro rfl
    revert hkey
    decide
  rw [lookup_newDb, if_neg hne]

/-- The items and the resources are in the store, the items listed in the
parent. -/
structure Holds (db : Db) (parent : ObjectKey) (items : List MediaObject)
    (resources : List (ResourceKey × Resource)) : Prop where
  item : ∀ item ∈ items, db.lookup (.objectKey item.id) = some (.mediaObject item)
  resource : ∀ p ∈ resources, db.lookup (.resourceKey p.1) = some (.resource p.2)
  listed : ∃ view, StoreService.list db parent = .ok view ∧
    ∀ item ∈ items, .objectKey item.id ∈ view.objects

/-- A normal return has everything stored, an exception nothing. -/
def AllOrNothing (before : Db) (parent : ObjectKey) (items : List MediaObject)
    (resources : List (ResourceKey × Resource)) :
    EStateM.Result Failure StoreService PUnit → Prop
  | .ok _ next => Holds next.db parent items resources
  | .error _ next => next.db = before

/-- No two records are given under one key, and none under the parent's. -/
structure Collisionless (old : MediaObject) (parent : ObjectKey) (items : List MediaObject)
    (resources : List (ResourceKey × Resource)) : Prop where
  item : ∀ item ∈ items, ∀ other ∈ items, item.id = other.id → item = other
  resource : ∀ p ∈ resources, ∀ other ∈ resources, p.1 = other.1 → p.2 = other.2
  parent : ∀ item ∈ items, item.id = parent → item = extendedParent old items

/-- The calls that never get as far as the write, those whose write does not
fail, and those that have nothing left to write. -/
def PutsSafely (store : StoreService) (parent : ObjectKey) (items : List MediaObject)
    (resources : List (ResourceKey × Resource)) : Prop :=
  ∀ old, objectAt store.db (.objectKey parent) = some old → old.IsContainer →
    (∀ item ∈ items, item.parentId = parent) →
    match store.outcomes.head? with
    | some .failed => Holds store.db parent items resources
    | some .interrupted => True
    | _ => Collisionless old parent items resources

section AllOrNothing

variable {parent : ObjectKey} {items : List MediaObject}
  {resources : List (ResourceKey × Resource)} {store : StoreService} {old : MediaObject}

/-- After the write everything is stored unless puts collide. -/
theorem holds_write_iff : Holds (store.db.write (putBatch parent items resources old.children
      (containerMetaOf old))) parent items resources ↔
    Collisionless old parent items resources := by
  have hparent := objectAt_write_putBatch store.db parent old items resources
  constructor
  · intro h
    refine ⟨?_, ?_, ?_⟩
    · intro item hitem other hother heq
      have hboth := (h.item item hitem).symm.trans (heq ▸ h.item other hother)
      simpa using hboth
    · intro p hp other hother heq
      have hboth := (h.resource p hp).symm.trans (heq ▸ h.resource other hother)
      simpa using hboth
    · rintro item hitem rfl
      have hboth := (h.item item hitem).symm.trans (objectAt_eq_some_iff.mp hparent)
      simpa using hboth
  · intro h
    refine ⟨?_, ?_, ⟨_, list_eq_ok_iff.mpr ⟨extendedParent old items,
      hparent, isContainer_serializeContainer _ _, rfl⟩, ?_⟩⟩
    · intro item hitem
      apply OrderedMap.lookup_write_of_alike _
      · simp only [putBatch, List.append_assoc, List.mem_append, List.mem_map]
        exact Or.inr (Or.inl ⟨item, hitem, rfl⟩)
      · intro record hrecord
        simp only [putBatch, List.mem_append, List.mem_map, List.mem_singleton] at hrecord
        rcases hrecord with (⟨p, -, heq⟩ | ⟨other, hother, heq⟩) | heq
        · simp at heq
        · obtain ⟨hid, rfl⟩ := Prod.ext_iff.mp heq
          rw [h.item item hitem other hother (by simpa using hid.symm)]
        · obtain ⟨hid, rfl⟩ := Prod.ext_iff.mp heq
          rw [h.parent item hitem (by simpa using hid)]
          rfl
    · intro p hp
      apply OrderedMap.lookup_write_of_alike _
      · simp only [putBatch, List.append_assoc, List.mem_append, List.mem_map]
        exact Or.inl ⟨p, hp, rfl⟩
      · intro record hrecord
        simp only [putBatch, List.mem_append, List.mem_map, List.mem_singleton] at hrecord
        rcases hrecord with (⟨other, hother, heq⟩ | ⟨item, -, heq⟩) | heq
        · obtain ⟨hkey, rfl⟩ := Prod.ext_iff.mp heq
          rw [h.resource p hp other hother (by simpa using hkey.symm)]
        · simp at heq
        · simp at heq
    · intro item hitem
      simp only [extendedParent, children_serializeContainer, List.mem_append]
      exact Or.inr (List.mem_map_of_mem hitem)

/-- A call that gets as far as the write returns whether or not it succeeds. -/
theorem putItems_of_decoded (hstored : objectAt store.db (.objectKey parent) = some old)
    (hcontainer : old.IsContainer) (hparents : ∀ item ∈ items, item.parentId = parent) :
    putItems parent items resources store =
      (do
        let _ ← write (putBatch parent items resources old.children (containerMetaOf old))
        pure ⟨⟩ : StoreM PUnit) store := by
  have hdecode := deserializeContainer_of_objectAt hstored hcontainer
  simp only [putItems, bind_apply, get_apply, hdecode, fromExcept_ok_apply, addItems_eq,
    if_pos hparents]
  rfl

/-- `put_items` is all or nothing exactly where no write fails unnoticed. -/
theorem putItems_allOrNothing_iff (parent : ObjectKey) (items : List MediaObject)
    (resources : List (ResourceKey × Resource)) (store : StoreService) :
    AllOrNothing store.db parent items resources (putItems parent items resources store) ↔
      PutsSafely store parent items resources := by
  by_cases hreaches : ∃ old, objectAt store.db (.objectKey parent) = some old ∧
      old.IsContainer ∧ ∀ item ∈ items, item.parentId = parent
  · obtain ⟨old, hstored, hcontainer, hparents⟩ := hreaches
    have hsafely : PutsSafely store parent items resources ↔
        match store.outcomes.head? with
        | some .failed => Holds store.db parent items resources
        | some .interrupted => True
        | _ => Collisionless old parent items resources := by
      refine ⟨fun h => h old hstored hcontainer hparents, fun h other hother _ _ => ?_⟩
      obtain rfl := Option.some.inj (hstored.symm.trans hother)
      exact h
    rw [hsafely, putItems_of_decoded hstored hcontainer hparents, bind_apply, write]
    cases houtcomes : store.outcomes with
    | nil => exact holds_write_iff
    | cons outcome rest =>
        cases outcome with
        | applied => exact holds_write_iff
        | failed => exact Iff.rfl
        | interrupted => simp [AllOrNothing]
  · have hsafely : PutsSafely store parent items resources := fun old hold hcontainer hparents =>
      absurd ⟨old, hold, hcontainer, hparents⟩ hreaches
    refine iff_of_true ?_ hsafely
    cases hdecode : deserializeContainer store.db (.objectKey parent) with
    | error error => simp [putItems, hdecode, AllOrNothing]
    | ok decoded =>
        obtain ⟨old, hold, hcontainer, -⟩ := deserializeContainer_eq_ok_iff.mp hdecode
        have hparents : ¬ ∀ item ∈ items, item.parentId = parent := fun hall =>
          hreaches ⟨old, objectAt_eq_some_iff.mpr hold, hcontainer, hall⟩
        simp [putItems, hdecode, addItems_eq, if_neg hparents, AllOrNothing]

/-- The write of the `Movies` container fails, and the caller is not told. -/
theorem putItems_not_allOrNothing :
    putItems ⟨0⟩ [moviesFolderObject ⟨1⟩ ⟨0⟩] [] ⟨newDb, [], [.failed]⟩ =
        .ok ⟨⟩ ⟨newDb, [], []⟩ ∧
      ¬ AllOrNothing newDb ⟨0⟩ [moviesFolderObject ⟨1⟩ ⟨0⟩] []
        (putItems ⟨0⟩ [moviesFolderObject ⟨1⟩ ⟨0⟩] [] ⟨newDb, [], [.failed]⟩) := by
  have hroot : objectAt newDb (.objectKey ⟨0⟩) = some (serializeContainer [] rootContainerMeta) :=
    objectAt_newDb.mpr ⟨rfl, rfl⟩
  have hreturns : putItems ⟨0⟩ [moviesFolderObject ⟨1⟩ ⟨0⟩] [] ⟨newDb, [], [.failed]⟩ =
      .ok ⟨⟩ ⟨newDb, [], []⟩ := by
    rw [@putItems_of_decoded ⟨0⟩ _ [] ⟨newDb, [], [.failed]⟩ _ hroot
      (isContainer_serializeContainer _ _) (by decide)]
    rfl
  refine ⟨hreturns, ?_⟩
  rw [hreturns]
  intro h
  have hmovies := h.item _ List.mem_cons_self
  rw [lookup_newDb, if_neg (by decide)] at hmovies
  simp at hmovies

end AllOrNothing

end Eems
