/-
The order in which directories are enumerated shows in a scan's result only in
the ids and in the order of children.
-/
import Eems.ScanCoverage
import Eems.LibraryRenaming

namespace Eems

open Numbering Library

section Fixed

variable {A : Type} [DecidableEq A] {plan : Plan A} {origin : Origin}
  {files : FileInfo → Prop} {left right : List A}
  (horigin : origin.Valid files) (hnodup : left.Nodup) (hperm : left.Perm right)

include horigin in
theorem renumbering_stored {key : LibraryKey} {record : Record}
    (hstored : origin.db.lookup key = some record) :
    (plan.renumbering origin hnodup hperm).key key = key := by
  cases key with
  | objectKey key =>
      rw [Renaming.key, Plan.renumbering_objectKey_of_notMem hnodup hperm
        (Or.inl (horigin.below.1 key record hstored))]
  | resourceKey key =>
      rw [Renaming.key, Plan.renumbering_resource_of_notMem hnodup hperm
        (Or.inl (horigin.below.2 key record hstored))]

include horigin in
/-- What the origin's database holds refers to nothing that is renamed. -/
theorem sameObject_stored {key : LibraryKey} {object : MediaObject}
    (hobject : objectAt origin.db key = some object) :
    SameObject (plan.renumbering origin hnodup hperm) object object := by
  have hlib := horigin.library
  have hfixed : ∀ {k : ObjectKey} {record : Record},
      origin.db.lookup (.objectKey k) = some record →
      (plan.renumbering origin hnodup hperm).objectKey k = k := fun hstored =>
    LibraryKey.objectKey.inj (renumbering_stored horigin hnodup hperm hstored)
  have hlookup := objectAt_eq_some_iff.mp hobject
  have hid := hlib.object_key key object hlookup
  apply SameObject.refl_of_fixed (hfixed (hid ▸ hlookup))
  · by_cases hroot : key = rootKey
    · rw [hlib.root_parent object (hroot ▸ hobject)]
      have hpos := horigin.objectId_pos
      exact Plan.renumbering_objectKey_of_notMem hnodup hperm (Or.inl (by simp; omega))
    · obtain ⟨node, hnode, -⟩ := hlib.tree.listed key _ (listing_eq_some hobject) hroot
      obtain ⟨parent, hparent, -⟩ := Option.map_eq_some_iff.mp hnode
      exact hfixed (objectAt_eq_some_iff.mp hparent)
  · intro child hchild
    obtain ⟨node, hnode, -⟩ := hlib.tree.child_stored key _ (listing_eq_some hobject) child
      (by simpa using hchild)
    obtain ⟨object', hobject', -⟩ := Option.map_eq_some_iff.mp hnode
    exact renumbering_stored horigin hnodup hperm (objectAt_eq_some_iff.mp hobject')
  · intro ref href
    obtain ⟨resource, hstored⟩ := hlib.owned.stored_of_mem key ref (by simpa [refsAt, hobject])
    exact renumbering_stored horigin hnodup hperm hstored

variable {dbLeft dbRight : Db} (hstable : plan.Stable) (hlogLeft : plan.WellOrdered left)
  (hlogRight : plan.WellOrdered right) (hLeft : plan.Represents origin left dbLeft)
  (hRight : plan.Represents origin right dbRight)

include horigin hstable hlogLeft hLeft hRight in
theorem renumbered_object (k : ObjectKey) :
    Option.Rel (SameObject (plan.renumbering origin hnodup hperm))
      (objectAt dbLeft (.objectKey k))
      (objectAt dbRight (.objectKey ((plan.renumbering origin hnodup hperm).objectKey k))) := by
  by_cases hrange : origin.objectId ≤ k.id ∧ k.id < origin.objectId + left.length
  · obtain ⟨a, ha, hnumber⟩ := exists_of_number_range hnodup hrange.1 hrange.2
    obtain rfl : Plan.key origin left a = k := ObjectKey.ext hnumber
    rw [Plan.renumbering_key hnodup hperm ha, hLeft.object a ha,
      hRight.object a (hperm.subset ha)]
    exact .some (Plan.renumbering_object hnodup hperm hstable hLeft.movies_below hlogLeft ha)
  · have hfixed : (plan.renumbering origin hnodup hperm).objectKey k = k :=
      Plan.renumbering_objectKey_of_notMem hnodup hperm (by omega)
    rw [hfixed]
    by_cases hmovies : k = origin.moviesFolder
    · obtain ⟨movies, hbase, -, hstored⟩ := hLeft.movies
      obtain ⟨movies', hbase', -, hstored'⟩ := hRight.movies
      obtain rfl := Option.some.inj (hbase.symm.trans hbase')
      rw [hmovies, hstored, hstored']
      exact .some ((sameObject_stored horigin hnodup hperm hbase).withChildren
        (Plan.renumbering_childKeys hnodup hperm none))
    · have hframe : ∀ {log : List A} {db : Db}, plan.Represents origin log db →
          log.length = left.length →
          objectAt db (.objectKey k) = objectAt origin.db (.objectKey k) := by
        intro log db h hlength
        have hlookup := h.frame (.objectKey k) (by simpa using hmovies) (by
          rw [Plan.mem_newKeys, not_or]
          refine ⟨?_, by simp⟩
          rintro ⟨a, ha, hkey⟩
          have := Plan.key_range origin ha
          rw [← LibraryKey.objectKey.inj hkey] at this
          omega)
        simp only [objectAt, hlookup]
      rw [hframe hLeft rfl, hframe hRight hperm.length_eq.symm]
      cases hobject : objectAt origin.db (.objectKey k) with
      | none => exact .none
      | some object => exact .some (sameObject_stored horigin hnodup hperm hobject)

include hlogLeft hlogRight hLeft hRight in
theorem renumbered_resource (k : ResourceKey) :
    dbLeft.lookup (.resourceKey k) = dbRight.lookup
      ((plan.renumbering origin hnodup hperm).key (.resourceKey k)) := by
  by_cases hrange : origin.resourceId ≤ k.id ∧
      k.id < origin.resourceId + (left.flatMap plan.files).length
  · have hlength : (places plan.width left).length = (left.flatMap plan.files).length := by
      rw [length_places, List.length_flatMap]
      rfl
    have hplaces : (places plan.width left).Nodup := places_nodup hnodup
    obtain ⟨⟨a, i⟩, hplace, hnumber⟩ := exists_of_number_range hplaces hrange.1
      (hlength ▸ hrange.2)
    obtain ⟨ha, hi⟩ := mem_places.mp hplace
    rw [number_places ha hi] at hnumber
    have hinfo := List.getElem?_eq_getElem (l := plan.files a) hi
    have hkey : k = ⟨plan.start origin left a + i⟩ := ResourceKey.ext hnumber.symm
    rw [hkey, Renaming.key, hLeft.resource_at hlogLeft.nodup ha hinfo]
    simp only [Plan.renumbering_start hnodup hperm ha hi]
    exact (hRight.resource_at hlogRight.nodup (hperm.subset ha) hinfo).symm
  · have hfixed : (plan.renumbering origin hnodup hperm).resources k.id = k.id :=
      Plan.renumbering_resource_of_notMem hnodup hperm (by omega)
    have hframe : ∀ {log : List A} {db : Db}, plan.Represents origin log db →
        (log.flatMap plan.files).length = (left.flatMap plan.files).length →
        db.lookup (.resourceKey k) = origin.db.lookup (.resourceKey k) := by
      intro log db h hlength
      apply h.frame _ (by simp)
      rw [Plan.mem_newKeys, not_or]
      refine ⟨by simp, ?_⟩
      rintro ⟨p, hp, hkey⟩
      have hhigh := Plan.resource_range hp
      obtain ⟨q, hq, rfl⟩ := List.mem_map.mp hp
      have hlow := (fst_mem_numberFrom hq).1
      rw [LibraryKey.resourceKey.inj hkey] at hrange
      simp only at hlow hhigh hrange
      omega
    rw [Renaming.key, hfixed, hframe hLeft rfl,
      hframe hRight (hperm.flatMap_right _).length_eq.symm]

include horigin hstable hlogLeft hlogRight hLeft hRight in
/-- Two orders of filing the same additions lead to isomorphic libraries. -/
theorem renumbered_iso {filesLeft filesRight : FileInfo → Prop}
    (hlibLeft : Library filesLeft dbLeft) (hlibRight : Library filesRight dbRight) :
    LibraryIso (plan.renumbering origin hnodup hperm) dbLeft dbRight where
  object key := by
    cases key with
    | objectKey k =>
        exact renumbered_object horigin hnodup hperm hstable hlogLeft hLeft hRight k
    | resourceKey k =>
        have hnone : ∀ {files : FileInfo → Prop} {db : Db}, Library files db → ∀ k,
            objectAt db (.resourceKey k) = none := by
          intro files db hlib k
          rw [Option.eq_none_iff_forall_ne_some]
          intro object hobject
          have hkey := hlib.object_key _ object (objectAt_eq_some_iff.mp hobject)
          simp at hkey
        rw [hnone hlibLeft, Renaming.key, hnone hlibRight]
        exact .none
  resource key resource := by
    cases key with
    | objectKey k =>
        have hnone : ∀ {files : FileInfo → Prop} {db : Db}, Library files db → ∀ k,
            db.lookup (.objectKey k) ≠ some (.resource resource) := by
          intro files db hlib k hstored
          obtain ⟨id, hkey⟩ := hlib.resource_key _ resource hstored
          simp at hkey
        exact iff_of_false (hnone hlibLeft k) (hnone hlibRight _)
    | resourceKey k =>
        rw [renumbered_resource hnodup hperm hlogLeft hlogRight hLeft hRight]

end Fixed

section Records

variable {rename : Renaming} {start start' : Int}

theorem numberedArtwork_rename {list : List (FileInfo × ArtworkType)}
    (h : ∀ i : Nat, i < list.length → rename.resources (start + i) = start' + i) :
    (ObjectComposer.numberedArtwork start list).map rename.artwork =
      ObjectComposer.numberedArtwork start' list := by
  rw [ObjectComposer.numberedArtwork, ObjectComposer.numberedArtwork, ← map_numberFrom h]
  simp [Function.comp_def, Renaming.artwork, Renaming.key]

theorem numberedRefs_rename {list : List FileInfo}
    (h : ∀ i : Nat, i < list.length → rename.resources (start + i) = start' + i) :
    (ObjectComposer.numberedRefs start list).map rename.ref =
      ObjectComposer.numberedRefs start' list := by
  rw [ObjectComposer.numberedRefs, ObjectComposer.numberedRefs, ← map_numberFrom h]
  simp [Function.comp_def, Renaming.ref, Renaming.key, createResourceRef]

theorem collectionObject_rename {name : Bytes} {artwork : Option FileInfo × ArtworkType}
    {id : Int} {parent : ObjectKey}
    (h : ∀ i : Nat, i < artwork.1.toList.length → rename.resources (start + i) = start' + i) :
    SameObject rename (collectionObject name artwork id start parent)
      (collectionObject name artwork (rename.objects id) start' (rename.objectKey parent)) := by
  obtain ⟨found, artType⟩ := artwork
  refine ⟨rfl, rfl, rfl, rfl, rfl, rfl, ?_, rfl, ?_⟩
  · simp [collectionObject]
  · cases found with
    | none => simp [collectionObject, collectionMeta]
    | some info =>
        have hstart := h 0 (by simp)
        simp only [Nat.cast_zero, add_zero] at hstart
        simp [collectionObject, collectionMeta, Renaming.artwork, Renaming.key, hstart]

theorem itemRecord_rename [ArtworkSorter] (composer : ObjectComposer) {video : Bytes × FileInfo}
    {id : Int} (h : ∀ i : Nat, i < (composer.itemFiles video).length →
      rename.resources (start + i) = start' + i) :
    SameObject rename (composer.itemRecord video id start)
      ({ composer with parentId := rename.objectKey composer.parentId }.itemRecord video
        (rename.objects id) start') := by
  have hlength : (composer.itemFiles video).length =
      1 + (composer.itemArtwork video.1).length + (composer.itemSubtitles video.1).length := by
    simp only [ObjectComposer.itemFiles, List.length_cons, List.length_append, List.length_map]
    omega
  have hstart := h 0 (by omega)
  have hartwork : ∀ i : Nat, i < (composer.itemArtwork video.1).length →
      rename.resources (start + 1 + i) = start' + 1 + i := by
    intro i hi
    have hplace := h (1 + i) (by omega)
    push_cast at hplace
    rwa [← add_assoc, ← add_assoc] at hplace
  have hsubtitles : ∀ i : Nat, i < (composer.itemSubtitles video.1).length →
      rename.resources (start + 1 + (composer.itemArtwork video.1).length + i) =
        start' + 1 + (composer.itemArtwork video.1).length + i := by
    intro i hi
    have hplace := h (1 + (composer.itemArtwork video.1).length + i) (by omega)
    push_cast at hplace
    rwa [← add_assoc, ← add_assoc, ← add_assoc, ← add_assoc] at hplace
  simp only [Nat.cast_zero, add_zero] at hstart
  refine ⟨rfl, rfl, rfl, rfl, rfl, rfl, List.Perm.nil, ?_, ?_⟩
  · rw [ObjectComposer.resources_itemRecord, ObjectComposer.resources_itemRecord, List.map_cons,
      numberedRefs_rename hsubtitles]
    simp only [Renaming.ref, Renaming.key, createResourceRef, hstart]
    rfl
  · have hleft := (composer.artworks_itemRecord_perm video id start).map rename.artwork
    rw [numberedArtwork_rename hartwork] at hleft
    exact hleft.trans
      (ObjectComposer.artworks_itemRecord_perm video (rename.objects id) start').symm

theorem Site.plan_stable [ArtworkSorter] (site : Site) : site.plan.Stable := by
  intro rename a id start start' parentId h
  cases a with
  | collection dir => exact collectionObject_rename h
  | video dir file =>
      exact itemRecord_rename (site.composer dir parentId) h

end Records

section SameTree

variable {left right : Site} (hroot : left.root = right.root) (hconfig : left.config = right.config)
  (hsame : left.fs.SameTree right.fs)

include hroot in
theorem path_sameTree (dir : Addr) : left.path dir = right.path dir := by
  induction dir with
  | nil => exact hroot
  | cons name dir ih => rw [Site.path, Site.path, ih]

include hroot hsame in
theorem entries_sameTree (dir : Addr) : (left.entries dir).Perm (right.entries dir) := by
  have hrel := hsame (left.path dir)
  rw [Site.entries, Site.entries, ← path_sameTree hroot dir]
  revert hrel
  cases left.fs.entries (left.path dir) <;> cases right.fs.entries (left.path dir) <;>
    simp

include hroot hsame in
/-- The maps of a directory do not show the order of its entries. -/
theorem content_sameTree (dir : Addr) :
    (left.content dir).videos = (right.content dir).videos ∧
      (left.content dir).artwork = (right.content dir).artwork ∧
      (left.content dir).subtitles = (right.content dir).subtitles := by
  have hperm := entries_sameTree hroot hsame dir
  have hmap := fun accept => @fileMap_perm (left.path dir) accept _ _ hperm
    (Site.names_nodup dir) (Site.names_valid dir)
  simp only [Site.content, readContent_eq, ← path_sameTree hroot dir]
  exact ⟨hmap _, hmap _, hmap _⟩

include hroot hsame in
theorem subdirs_sameTree (dir : Addr) : (left.subdirs dir).Perm (right.subdirs dir) :=
  ((entries_sameTree hroot hsame dir).filter _).map _

include hroot hsame in
theorem folderArtwork_sameTree (dir : Addr) : left.folderArtwork dir = right.folderArtwork dir := by
  rw [Site.folderArtwork, Site.folderArtwork, (content_sameTree hroot hsame dir).2.1]

include hroot hsame in
theorem videos_sameTree (dir : Addr) : left.videos dir = right.videos dir := by
  rw [Site.videos, Site.videos, (content_sameTree hroot hsame dir).1]

include hroot hconfig hsame in
theorem makesCollection_sameTree (dir : Addr) :
    left.MakesCollection dir ↔ right.MakesCollection dir := by
  have hsubdirs : left.subdirs dir = [] ↔ right.subdirs dir = [] := by
    have hlength := (subdirs_sameTree hroot hsame dir).length_eq
    rw [← List.length_eq_zero_iff, ← List.length_eq_zero_iff, hlength]
  rw [Site.MakesCollection, Site.MakesCollection, hconfig, videos_sameTree hroot hsame,
    folderArtwork_sameTree hroot hsame, ne_eq (left.subdirs dir), hsubdirs]

include hroot hconfig hsame in
theorem incoming_sameTree (dir : Addr) : left.incoming dir = right.incoming dir := by
  induction dir with
  | nil => rfl
  | cons name dir ih =>
      simp only [Site.incoming, makesCollection_sameTree hroot hconfig hsame,
        folderArtwork_sameTree hroot hsame, ih]

include hroot hconfig hsame in
theorem own_sameTree (dir : Addr) : left.own dir = right.own dir := by
  simp only [Site.own, makesCollection_sameTree hroot hconfig hsame,
    incoming_sameTree hroot hconfig hsame]

include hroot hconfig hsame in
theorem composer_sameTree (dir : Addr) (parent : ObjectKey) :
    left.composer dir parent = right.composer dir parent := by
  obtain ⟨hvideos, hartwork, hsubtitles⟩ := content_sameTree hroot hsame dir
  rw [Site.composer, Site.composer, composerOf, composerOf, path_sameTree hroot, hconfig, hvideos,
    hartwork, hsubtitles]

include hroot hconfig hsame in
/-- Trees that differ in the order of enumeration are filed by one plan. -/
theorem plan_sameTree [ArtworkSorter] : left.plan = right.plan := by
  have hcomposer := composer_sameTree hroot hconfig hsame
  apply Plan.ext
  · funext a
    cases a with
    | collection dir => exact incoming_sameTree hroot hconfig hsame dir
    | video dir file => exact own_sameTree hroot hconfig hsame dir
  · funext a
    cases a with
    | collection dir => simp only [Site.plan, folderArtwork_sameTree hroot hsame]
    | video dir file => simp only [Site.plan, hcomposer]
  · funext a id start parentId
    cases a with
    | collection dir =>
        simp only [Site.plan, folderArtwork_sameTree hroot hsame, path_sameTree hroot]
    | video dir file => simp only [Site.plan, hcomposer]

include hroot hconfig hsame in
theorem additions_sameTree (dir : Addr) : left.additions dir = right.additions dir := by
  simp only [Site.additions, makesCollection_sameTree hroot hconfig hsame,
    videos_sameTree hroot hsame]

include hroot hsame in
theorem inTree_sameTree (dir : Addr) : left.InTree dir ↔ right.InTree dir := by
  have hsubdir : left.Subdir = right.Subdir := by
    funext dir child
    exact propext (subdirs_sameTree hroot hsame dir).mem_iff
  rw [Site.InTree, Site.InTree, hsubdir]

theorem finiteTree_sameTree {fs fs' : FileSystem} (hsame : fs.SameTree fs') {path : Path}
    (h : fs.FiniteTree path) : fs'.FiniteTree path := by
  induction h with
  | @intro path list readable below ih =>
      have hrel := hsame path
      rw [readable] at hrel
      cases hentries : fs'.entries path with
      | none => simp [hentries] at hrel
      | some list' =>
          rw [hentries] at hrel
          have hperm : list.Perm list' := by simpa using hrel
          exact .intro hentries fun entry hentry => ih entry (hperm.symm.subset hentry)

include hroot hsame in
theorem visits_perm {order order' : List Addr} (htree : left.fs.FiniteTree left.root)
    (hvisits : left.Visits [[]] order)
    (hvisits' : right.Visits [[]] order') : order.Perm order' := by
  obtain ⟨_, hleft, hnodup, hmem⟩ := Site.exists_visits htree
  obtain rfl := hleft.unique hvisits
  obtain ⟨_, hright, hnodup', hmem'⟩ :=
    Site.exists_visits (hroot ▸ finiteTree_sameTree hsame htree)
  obtain rfl := hright.unique hvisits'
  apply (List.perm_ext_iff_of_nodup hnodup hnodup').mpr
  intro dir
  rw [hmem, hmem', inTree_sameTree hroot hsame]

end SameTree

/-- Every record a scan files has its posters first. -/
theorem Site.postersFirst_fresh [ArtworkSorter] {site : Site} {origin : Origin}
    {log : List Placed} (a : Placed) : (site.plan.fresh origin log a).PostersFirst := by
  cases a with
  | collection dir =>
      simp only [Plan.fresh, Site.plan, collectionObject, MediaObject.PostersFirst,
        artworks_serializeContainer, collectionMeta]
      cases (site.folderArtwork dir).1 <;> simp
  | video dir file => exact ObjectComposer.artworks_itemRecord_sorted _ _ _

theorem OriginOf.postersFirst {db : Db} {origin : Origin} (h : OriginOf db origin)
    {key : LibraryKey} {object : MediaObject} (hnew : db.lookup key = none)
    (hobject : objectAt origin.db key = some object) : object.PostersFirst := by
  have hlookup := objectAt_eq_some_iff.mp hobject
  cases h with
  | found stored listed => simp [hnew] at hlookup
  | created stored empty =>
      rcases OrderedMap.mem_or_lookup_of_write _ hlookup with hmem | hold
      · simp only [putBatch, List.map_nil, List.map_cons, List.nil_append, List.cons_append,
          List.mem_cons, Prod.mk.injEq, Record.mediaObject.injEq, List.not_mem_nil,
          or_false] at hmem
        rcases hmem with ⟨-, rfl⟩ | ⟨rfl, -⟩
        · exact List.Pairwise.nil
        · have hroot := objectAt_eq_some_iff.mp stored
          rw [rootKey, hnew] at hroot
          simp at hroot
      · simp [hnew] at hold

/-- Every object that a scan adds has its posters first. -/
theorem WholeScan.postersFirst [ArtworkSorter] {site : Site} {files : FileInfo → Prop} {base : Db}
    {world next : World} {origin : Origin} {order : List Addr}
    (h : WholeScan site files base world origin order next) {key : LibraryKey}
    {object : MediaObject} (hnew : world.store.db.lookup key = none)
    (hobject : objectAt next.store.db key = some object) : object.PostersFirst := by
  have hrep := h.progress.represents
  cases hbase : objectAt origin.db key with
  | some old =>
      have hold := h.origin_of.postersFirst hnew hbase
      by_cases hmovies : key = .objectKey origin.moviesFolder
      · obtain ⟨movies, hmovies', -, hstored⟩ := hrep.movies
        obtain rfl := Option.some.inj ((hmovies ▸ hbase).symm.trans hmovies')
        obtain rfl := Option.some.inj ((hmovies ▸ hobject).symm.trans hstored)
        rw [MediaObject.PostersFirst, artworks_withChildren]
        exact hold
      · have hlog := fun a => Site.mem_flatMap_additions (a := a) h.mem_order
        have hkept := (h.progress.scanPlaced h.valid hlog).kept key (by simp [hbase]) hmovies
        obtain rfl := Option.some.inj (hobject.symm.trans (hkept.trans hbase))
        exact hold
  | none =>
      have hlog := fun a => Site.mem_flatMap_additions (a := a) h.mem_order
      obtain ⟨a, ha, rfl⟩ := (h.progress.scanPlaced h.valid hlog).complete key object hobject hbase
      obtain rfl := Option.some.inj ((hrep.object a ((hlog a).mpr ha)).symm.trans hobject)
      rw [MediaObject.PostersFirst, Plan.object, artworks_withChildren]
      exact Site.postersFirst_fresh a

/-- Two whole scans of one tree into equal databases, in two orders. -/
theorem WholeScan.iso [ArtworkSorter] {left right : Site} {files files' : FileInfo → Prop}
    {base base' : Db} {world world' next next' : World} {origin origin' : Origin}
    {order order' : List Addr}
    (hleft : WholeScan left files base world origin order next)
    (hright : WholeScan right files' base' world' origin' order' next')
    (hroot : left.root = right.root) (hconfig : left.config = right.config)
    (hsame : left.fs.SameTree right.fs) (hdb : world.store.db = world'.store.db) :
    ∃ rename, LibraryIso rename next.store.db next'.store.db := by
  obtain rfl : origin' = origin := (hdb ▸ hright.origin_of).unique hleft.origin_of
  have horder : order.Perm order' := by
    apply (List.perm_ext_iff_of_nodup hleft.nodup hright.nodup).mpr
    intro dir
    rw [hleft.mem_order, hright.mem_order, inTree_sameTree hroot hsame]
  have hadditions : left.additions = right.additions :=
    funext fun dir => additions_sameTree hroot hconfig hsame dir
  have hprogress := hright.progress
  have hperm : (order.flatMap left.additions).Perm (order'.flatMap right.additions) := by
    rw [hadditions]
    exact horder.flatMap_right _
  have hplan := plan_sameTree hroot hconfig hsame
  have hwell := hprogress.wellOrdered
  have hrep := hprogress.represents
  rw [← hplan] at hwell hrep
  exact ⟨_, renumbered_iso hleft.valid hleft.progress.wellOrdered.nodup hperm left.plan_stable
    hleft.progress.wellOrdered hwell hleft.progress.represents hrep
    hleft.progress.scanning.library hprogress.scanning.library⟩

/-- Two scans of one finite tree, whose directories are enumerated in two
orders, into equal databases, with all of their writes succeeding. -/
theorem reachable_scans_iso [ArtworkSorter] {calls calls' : List ScanCall}
    {system system' : System} (h : Reachable calls system) (h' : Reachable calls' system')
    (hdb : system.db = system'.db) {scanner scanner' : Nat}
    (hknown : MoviesKnown system.db (system.scanners scanner))
    (hknown' : MoviesKnown system'.db (system'.scanners scanner')) {fs fs' : FileSystem}
    {root : Path} (hsame : fs.SameTree fs') (htree : fs.FiniteTree root)
    (config : MoviesLibraryConfig) :
    ∃ turns after after' rename,
      (∀ turns' : Nat, turns ≤ turns' →
        scanAll fs turns' root config
          ⟨⟨system.db, system.journal, []⟩, system.scanners scanner, []⟩ = .ok ⟨⟩ after ∧
        scanAll fs' turns' root config
          ⟨⟨system'.db, system'.journal, []⟩, system'.scanners scanner', []⟩ = .ok ⟨⟩ after') ∧
      LibraryIso rename after.store.db after'.store.db ∧
      (∀ key object, system.db.lookup key = none →
        objectAt after.store.db key = some object → object.PostersFirst) ∧
      ∀ key object, system'.db.lookup key = none →
        objectAt after'.store.db key = some object → object.PostersFirst := by
  obtain ⟨origin, order, after, hscan⟩ := h.exists_wholeScan hknown ⟨fs, root, config⟩ htree
  obtain ⟨origin', order', after', hscan'⟩ := h'.exists_wholeScan hknown'
    ⟨fs', root, config⟩ (finiteTree_sameTree hsame htree)
  obtain ⟨rename, hiso⟩ := hscan.iso hscan' rfl rfl hsame hdb
  refine ⟨max order.length order'.length, after, after', rename, fun turns hturns => ?_, hiso,
    fun _ _ => hscan.postersFirst, fun _ _ => hscan'.postersFirst⟩
  exact ⟨hscan.returns turns (le_trans (le_max_left _ _) hturns),
    hscan'.returns turns (le_trans (le_max_right _ _) hturns)⟩

/-- The film files, enumerated the other way round. -/
def filmFilesReversed : FileSystem :=
  .ofTable
    [(ascii "films",
        [⟨ascii "more", .directory⟩, ⟨ascii "poster.jpg", .regular⟩,
          ⟨ascii "Brazil.avi", .regular⟩, ⟨ascii "Alien.1979.mkv", .regular⟩]),
      (ascii "films/more",
        [⟨ascii "Cube.srt", .regular⟩, ⟨ascii "Cube.mp4", .regular⟩])]
    (by decide) (by decide) (by decide)

theorem sameTree_films : filmFiles.SameTree filmFilesReversed := by
  intro path
  by_cases hfilms : ascii "films" = path
  · subst hfilms
    have hleft : filmFiles.entries (ascii "films") = some [⟨ascii "Alien.1979.mkv", .regular⟩,
      ⟨ascii "Brazil.avi", .regular⟩, ⟨ascii "poster.jpg", .regular⟩,
      ⟨ascii "more", .directory⟩] := by decide
    have hright : filmFilesReversed.entries (ascii "films") = some [⟨ascii "more", .directory⟩,
      ⟨ascii "poster.jpg", .regular⟩, ⟨ascii "Brazil.avi", .regular⟩,
      ⟨ascii "Alien.1979.mkv", .regular⟩] := by decide
    rw [hleft, hright]
    exact .some (by decide)
  · by_cases hmore : ascii "films/more" = path
    · subst hmore
      have hleft : filmFiles.entries (ascii "films/more") = some [⟨ascii "Cube.mp4", .regular⟩,
        ⟨ascii "Cube.srt", .regular⟩] := by decide
      have hright : filmFilesReversed.entries (ascii "films/more") =
        some [⟨ascii "Cube.srt", .regular⟩, ⟨ascii "Cube.mp4", .regular⟩] := by decide
      rw [hleft, hright]
      exact .some (by decide)
    · simp [filmFiles, filmFilesReversed, FileSystem.ofTable, hfilms, hmore]

theorem reachable_scans_iso_films :
    ∃ turns after after' rename,
      (∀ turns' : Nat, turns ≤ turns' →
        @scanAll insertionSorter filmFiles turns' (ascii "films") {} ⟨⟨newDb, [], []⟩, {}, []⟩ =
          .ok ⟨⟩ after ∧
        @scanAll insertionSorter filmFilesReversed turns' (ascii "films") {}
          ⟨⟨newDb, [], []⟩, {}, []⟩ = .ok ⟨⟩ after') ∧
      LibraryIso rename after.store.db after'.store.db ∧
      (∀ key object, newDb.lookup key = none →
        objectAt after.store.db key = some object → object.PostersFirst) ∧
      ∀ key object, newDb.lookup key = none →
        objectAt after'.store.db key = some object → object.PostersFirst :=
  @reachable_scans_iso insertionSorter [] [] (System.opened newDb) (System.opened newDb)
    (@Reachable.opened insertionSorter [] [] false newDb rfl)
    (@Reachable.opened insertionSorter [] [] false newDb rfl) rfl 0 0 (Or.inl (by decide))
    (Or.inl (by decide)) filmFiles filmFilesReversed (ascii "films") sameTree_films
    finiteTree_films {}

end Eems
