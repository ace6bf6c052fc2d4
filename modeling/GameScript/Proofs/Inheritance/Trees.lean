import GameScript.Proofs.Analysis.Progress
import GameScript.Proofs.Syntax.Places

/-!
# Trees of loaded files

A session keeps the trees of its files while their analysis goes on. The classes of a file are told from
each other by the places of their names, and files by their paths.

* `Session.trees` — the trees of the files that have been loaded;
* `Session.Regular` — each file has a path of its own, and each class has its own tree;
* `Step.trees_prefix`, `Event.trees_prefix` — files stay, and new ones come after them;
* `Leads.regular`, `Event.regular` — sessions stay regular if added files are so.
-/

namespace GameScript

namespace Session

variable {s s' : Session}

/-- The trees of the files that have been loaded, in their order. -/
def trees (s : Session) : List File := s.files.map FileRecord.file

@[simp] theorem length_trees (s : Session) : s.trees.length = s.files.length := by simp [trees]

theorem pathOf_eq (s : Session) (u : Nat) : s.pathOf u = ((s.trees[u]?).map File.path).getD "" := by
  rw [trees, List.getElem?_map, Option.map_map]
  rfl

theorem classIds_eq_getD (s : Session) (u : Nat) :
    Compile.classIds s u = ((s.trees[u]?).map fun f => f.cls.numbers u (mainClass u)).getD [] := by
  unfold Compile.classIds
  rw [trees, List.getElem?_map]
  cases s.files[u]? with
  | none => rfl
  | some r => exact map_fst_classRecords ..

theorem classIds_eq {u : Nat} {f : File} (h : s.trees[u]? = some f) :
    Compile.classIds s u = f.cls.numbers u (mainClass u) := by
  rw [classIds_eq_getD, h]
  rfl

theorem cls_annotated {u : Nat} {f : File} (h : s.trees[u]? = some f) :
    (s.annotated u).cls = s.annotatedClass u f.cls := by
  rw [trees, List.getElem?_map] at h
  obtain ⟨r, hr, rfl⟩ := Option.map_eq_some_iff.1 h
  unfold annotated
  rw [hr]

/-! ### Files stay -/

theorem trees_eq_of_bare (h : s'.bare = s.bare) : s'.trees = s.trees := by
  have hfiles : s'.files.map FileRecord.bare = s.files.map FileRecord.bare := congrArg Session.files h
  have htrees : ∀ fs : List FileRecord, (fs.map FileRecord.bare).map FileRecord.file = fs.map FileRecord.file :=
    fun fs => List.map_map ..
  rw [trees, trees, ← htrees s'.files, ← htrees s.files, hfiles]

@[simp] theorem trees_withFacts (id : DeclId) (f : ClassFacts → ClassFacts) : (s.withFacts id f).trees = s.trees := by
  simp [trees]

theorem trees_report (c : DeclId) (o : Nat) : trees { s with
    cyclic := c :: s.cyclic
    files := s.files.modify o fun r => { r with errors := ⟨s.placeOf c, .cyclicInheritance⟩ :: r.errors } } =
      s.trees := by
  refine map_modify_of_view ?_ s.files o
  exact fun _ => rfl

theorem trees_addFile (file : File) : (s.addFile file).2.trees = s.trees ++ [file] := by simp [trees, addFile]

/-- Asking for a file adds at most the file, parsed, if its path has not been asked for. -/
theorem fetch_trees (s : Session) (path : Text) : (s.fetch path).2 = s ∨ s.cache.get? path = none ∧
    ((∃ cache loads, (s.fetch path).2 = { s with cache, loads }) ∨
      ∃ text file loads, File.parse path text = .ok file ∧
        (s.fetch path).2 = (addFile { s with loads } file).2) := by
  unfold fetch
  split
  · exact .inl rfl
  · exact .inl rfl
  rename_i hnone
  refine .inr ⟨hnone, ?_⟩
  split
  · exact .inl ⟨_, s.loads, rfl⟩
  rename_i text _
  dsimp only
  split
  · exact .inl ⟨_, _, rfl⟩
  · exact .inr ⟨text, _, _, ‹_›, rfl⟩

theorem fetch_trees_prefix (s : Session) (path : Text) : s.trees <+: (s.fetch path).2.trees := by
  obtain hs | ⟨-, ⟨cache, loads, hs⟩ | ⟨text, file, loads, -, hs⟩⟩ := s.fetch_trees path
  · exact (congrArg Session.trees hs).symm ▸ List.prefix_rfl
  · exact (congrArg Session.trees hs).symm ▸ List.prefix_rfl
  · rw [hs, trees_addFile]
    exact List.prefix_append ..

theorem Step.trees_prefix (h : Step s s') : s.trees <+: s'.trees := by
  cases h with
  | elsewhere h => exact trees_eq_of_bare h ▸ List.prefix_rfl
  | load path => exact fetch_trees_prefix s path
  | describe id f => exact (trees_withFacts id f).symm ▸ List.prefix_rfl
  | enter id => exact (trees_withFacts (s := s) id _).symm ▸ List.prefix_rfl
  | report c o => exact (trees_report c o).symm ▸ List.prefix_rfl
  | @settle id rest base =>
    rw [trees_withFacts]
    exact List.prefix_rfl

theorem Leads.trees_prefix (h : s.Leads s') : s.trees <+: s'.trees := by
  induction h with
  | refl => exact List.prefix_rfl
  | tail _ hstep ih => exact ih.trans hstep.trees_prefix

theorem Event.trees_prefix (h : Event s s') (hs : s.Sound) (hf : s.Filed) : s.trees <+: s'.trees := by
  cases h with
  | add file => exact trees_addFile (s := s) file ▸ List.prefix_append ..
  | load path => exact fetch_trees_prefix s path
  | surround env => exact List.prefix_rfl
  | script facts _ _ => exact List.prefix_rfl
  | raise unit target hunit => exact (raise_run hs hf hunit target).leads.trees_prefix
  | inheritance fuel id recursive unit hunit =>
    exact (inheritance_run hs hf hunit fuel id recursive).leads.trees_prefix
  | step hstep => exact hstep.trees_prefix

theorem Reached.trees_prefix (h : s.Reached) (hevents : Relation.ReflTransGen Event s s') : s.trees <+: s'.trees := by
  induction hevents with
  | refl => exact List.prefix_rfl
  | tail hevents hevent ih =>
    obtain ⟨hs, hf⟩ := (h.grows hevents).1.sound
    exact ih.trans (hevent.trees_prefix hs hf)

theorem getElem?_trees (h : s.trees <+: s'.trees) {u : Nat} {f : File} (hf : s.trees[u]? = some f) :
    s'.trees[u]? = some f := by
  obtain ⟨new, hnew⟩ := h
  rw [← hnew, List.getElem?_append_left (List.getElem?_eq_some_iff.1 hf).1]
  exact hf

/-! ### Regular sessions -/

/-- A session is **regular** if each file has a path of its own, and each of its classes its own tree. There
are no other classes. -/
structure Regular (s : Session) : Prop where
  paths : (s.trees.map File.path).Nodup
  apart : ∀ f ∈ s.trees, f.Apart
  known : ∀ id, s.Has id → id ∈ Compile.classIds s id.unit
  decl : ∀ (u : Nat) (f : File), s.trees[u]? = some f → ∀ e ∈ classRecords u none f.path f.cls,
    s.declOf e.1 = some e.2.decl

theorem get?_of_mem {κ α : Type} [DecidableEq κ] {es : List (κ × α)} (hkeys : (es.map Prod.fst).Nodup)
    {e : κ × α} (he : e ∈ es) : (⟨es⟩ : Table κ α).get? e.1 = some e.2 := by
  unfold Table.get?
  induction es with
  | nil => cases he
  | cons f es ih =>
    rw [List.map_cons, List.nodup_cons] at hkeys
    rcases List.mem_cons.1 he with rfl | hmem
    · simp
    · have hne : f.1 ≠ e.1 := fun h => hkeys.1 (h ▸ List.mem_map_of_mem hmem)
      simpa [hne] using ih hkeys.2 hmem

/-- Files with one path are one file. -/
theorem Regular.unit_eq (h : s.Regular) {u v : Nat} (hu : u < s.files.length) (hv : v < s.files.length)
    (hpath : s.pathOf u = s.pathOf v) : u = v := by
  have hu' : u < (s.trees.map File.path).length := by simpa using hu
  have hv' : v < (s.trees.map File.path).length := by simpa using hv
  have hsame : (s.trees.map File.path)[u] = (s.trees.map File.path)[v] := by simpa [pathOf_eq, hu, hv] using hpath
  exact (List.getElem_inj h.paths).1 hsame

/-- The classes of a file are there. -/
theorem Regular.has_of_mem (h : s.Regular) {u : Nat} {f : File} (hf : s.trees[u]? = some f) {id : DeclId}
    (hid : id ∈ Compile.classIds s u) : s.Has id ∧ id.unit = u := by
  have hrecords : Compile.classIds s u = (classRecords u none f.path f.cls).map Prod.fst := by
    rw [classIds_eq hf, map_fst_classRecords]
    rfl
  rw [hrecords] at hid
  obtain ⟨e, he, rfl⟩ := List.mem_map.1 hid
  exact ⟨Option.isSome_of_eq_some (h.decl u f hf e he), (new_of_mem_classRecords f.cls e he).unit_eq⟩

theorem Regular.of_same (h : s.Regular) (htrees : s'.trees = s.trees)
    (hdecl : ∀ id d, s.declOf id = some d → s'.declOf id = some d) (hhas : ∀ id, s'.Has id → s.Has id) :
    s'.Regular := by
  refine ⟨htrees ▸ h.paths, htrees ▸ h.apart, fun id hid => ?_, fun u f hf e he => ?_⟩
  · rw [classIds_eq_getD, htrees, ← classIds_eq_getD]
    exact h.known id (hhas id hid)
  · exact hdecl _ _ (h.decl u f (htrees ▸ hf) e he)

/-- A file can be added if it has a path of its own and its classes have different places. -/
theorem Regular.addFile (h : s.Regular) (hf : s.Filed) {file : File} (hpath : file.path ∉ s.trees.map File.path)
    (hapart : file.Apart) : (s.addFile file).2.Regular := by
  have htrees := trees_addFile (s := s) file
  refine ⟨?_, fun f hmem => ?_, fun id hid => ?_, fun u f hu e he => ?_⟩
  · rw [htrees, List.map_append]
    refine List.nodup_append.2 ⟨h.paths, by simp, fun a ha b hb => ?_⟩
    rintro rfl
    exact hpath (List.mem_singleton.1 hb ▸ ha)
  · rw [htrees] at hmem
    rcases List.mem_append.1 hmem with hmem | hmem
    · exact h.apart f hmem
    · rwa [List.mem_singleton.1 hmem]
  · obtain ⟨c, hc⟩ := ((s.addFile file).2.has_iff id).1 hid
    rw [addFile_classes_get?] at hc
    rw [classIds_eq_getD, htrees]
    cases hold : s.classes.get? id with
    | some c' =>
      have hhas : s.Has id := (s.has_iff id).2 ⟨c', hold⟩
      have hlt : id.unit < s.trees.length := s.length_trees ▸ hf.unit_lt id hhas
      rw [List.getElem?_append_left hlt, ← classIds_eq_getD]
      exact h.known id hhas
    | none =>
      rw [hold, Option.none_or] at hc
      have hrecord := mem_of_get? hc
      have hunit : id.unit = s.files.length := (new_of_mem_classRecords file.cls _ hrecord).unit_eq
      have hmem := List.mem_map_of_mem (f := Prod.fst) hrecord
      rw [map_fst_classRecords] at hmem
      rw [hunit, ← length_trees, List.getElem?_append_right le_rfl, Nat.sub_self]
      rw [← length_trees] at hmem
      exact hmem
  · rcases Nat.lt_or_ge u s.files.length with hlt | hge
    · have hold : s.trees[u]? = some f := by
        rw [htrees, List.getElem?_append_left (by simpa using hlt)] at hu
        exact hu
      exact addFile_declOf s file (h.decl u f hold e he)
    · obtain rfl : u = s.files.length := by
        have hlength := (List.getElem?_eq_some_iff.1 hu).1
        rw [htrees, List.length_append, length_trees, List.length_singleton] at hlength
        omega
      obtain rfl : file = f := by simpa [htrees] using hu
      -- A class of the new file has not been there, and is the only one at its place.
      have hnew : s.classes.get? e.1 = none := by
        by_contra hne
        have hhas : s.Has e.1 := by
          obtain ⟨c, hc⟩ := Option.ne_none_iff_exists'.1 hne
          exact (s.has_iff _).2 ⟨c, hc⟩
        have hunit := (new_of_mem_classRecords file.cls e he).unit_eq
        have hlt := hf.unit_lt _ hhas
        omega
      have hkeys : ((classRecords s.files.length none file.path file.cls).map Prod.fst).Nodup := by
        rw [map_fst_classRecords]
        exact hapart _
      rw [declOf, addFile_classes_get?, hnew, Option.none_or, get?_of_mem hkeys he]
      rfl

theorem Regular.fetch (h : s.Regular) (hf : s.Filed) (path : Text) : (s.fetch path).2.Regular := by
  obtain hs | ⟨hnone, ⟨cache, loads, hs⟩ | ⟨text, file, loads, hparse, hs⟩⟩ := s.fetch_trees path <;> rw [hs]
  · exact h
  · exact h.of_same rfl (fun _ _ hd => hd) fun _ hid => hid
  · have hsame : Regular { s with loads } := h.of_same rfl (fun _ _ hd => hd) fun _ hid => hid
    have hfiled : Filed { s with loads } := hf.of_same (fun _ => rfl) rfl (fun _ => rfl) rfl
    refine hsame.addFile hfiled (fun hmem => ?_) (File.parse_apart hparse)
    -- A loaded file is known by its path.
    obtain ⟨u, hu⟩ := List.getElem?_of_mem hmem
    have hlt : u < s.files.length := by simpa using (List.getElem?_eq_some_iff.1 hu).1
    obtain ⟨v, hv⟩ := hf.loaded u hlt
    rw [List.getElem?_map] at hu
    have hpath : s.pathOf u = path := by
      rw [pathOf_eq, show s.trees[u]?.map File.path = some file.path from hu]
      exact File.parse_path hparse
    rw [hpath, hnone] at hv
    cases hv

theorem Step.regular (h : Step s s') (hr : s.Regular) (hs : s.Sound) (hf : s.Filed) : s'.Regular := by
  have hdecl := (h.grows hs).decl
  have hhas : s'.trees = s.trees → ∀ id, s'.Has id → s.Has id := by
    intro htrees id hid
    have hlength : s'.files.length = s.files.length := by rw [← length_trees, htrees, length_trees]
    exact (h.grows hs).old id hid (hlength ▸ (h.filed hf).unit_lt id hid)
  have hsame : s'.trees = s.trees → s'.Regular := fun htrees => hr.of_same htrees hdecl (hhas htrees)
  cases h with
  | elsewhere h => exact hsame (trees_eq_of_bare h)
  | load path => exact hr.fetch hf path
  | describe id f => exact hsame (trees_withFacts id f)
  | enter id => exact hsame (trees_withFacts (s := s) id _)
  | report c o => exact hsame (trees_report c o)
  | @settle id rest base => exact hsame (trees_withFacts (s := { s with inheriting := rest }) id _)

theorem Leads.regular (h : s.Leads s') (hr : s.Regular) (hs : s.Sound) (hf : s.Filed) : s'.Regular := by
  induction h with
  | refl => exact hr
  | tail hleads hstep ih => exact hstep.regular ih (Leads.sound hleads hs) (Leads.filed hleads hf)

end Session

end GameScript
