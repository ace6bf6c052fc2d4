import GameScript.Project
import Mathlib.Data.List.Infix

/-!
# Where resource paths lead

A path is followed component by component, from the root of the project or from the directory of the file that it
stands in, and nothing is above the root. A resolved path names the place that is reached, so it never leaves the
project, and it means the same in every file.

* `Text.IsEntry` — the name of a file or a directory;
* `Text.Follows` — the place that components lead to from a directory;
* `Text.cleanPath_rooted` — cleaning a path from the root follows its components;
* `Text.resolvePath_inside` — **resolved paths stay inside of the project**.
-/

namespace GameScript.Text

/-! ### Places -/

/-- The **name of a file or a directory**: it is not empty, it does not stand for a directory that is there already, and
there is no slash in it. -/
structure IsEntry (c : Text) : Prop where
  ne_empty : c ≠ ""
  ne_dot : c ≠ "."
  ne_dotDot : c ≠ ".."
  slash : 47 ∉ c.bytes

/-- Where components lead to from a directory, which is given by the entries on the way from the root to it. Above the
root there is nothing. -/
inductive Follows : List Text → List Text → List Text → Prop
  | done (here : List Text) : Follows here [] here
  | stay {here there cs : List Text} {c : Text} (hc : c = "" ∨ c = ".") (h : Follows here cs there) :
    Follows here (c :: cs) there
  | up {here there cs : List Text} (h : Follows here.dropLast cs there) : Follows here (".." :: cs) there
  | down {here there cs : List Text} {c : Text} (hc : c ≠ "" ∧ c ≠ "." ∧ c ≠ "..")
    (h : Follows (here ++ [c]) cs there) : Follows here (c :: cs) there

/-- The components that a path in the file at `file` goes along from the root: those of the directory of the file come
first, unless the path has the scheme of the project itself. -/
def named (file p : Text) : List Text :=
  match after? resourceScheme p with
  | some rest => rest.split 47
  | none => (file.split 47).dropLast ++ p.split 47

variable {t c : Text} {cs : List Text} {a : List UInt8}

/-! ### Pieces between separators -/

theorem splitBytes_nil (sep : UInt8) : splitBytes sep [] = [[]] := rfl

theorem splitBytes_cons (sep x : UInt8) (a : List UInt8) : splitBytes sep (x :: a) = if x = sep then [] :: splitBytes sep a
    else match splitBytes sep a with
      | [] => [[x]]
      | p :: ps => (x :: p) :: ps := rfl

theorem splitBytes_ne_nil (sep : UInt8) (a : List UInt8) : splitBytes sep a ≠ [] := by
  cases a with
  | nil => simp [splitBytes_nil]
  | cons x a =>
    rw [splitBytes_cons]
    split
    · simp
    · split <;> simp

/-- No piece has the separator in it. -/
theorem not_mem_splitBytes (sep : UInt8) {piece : List UInt8} (h : piece ∈ splitBytes sep a) : sep ∉ piece := by
  induction a generalizing piece with
  | nil =>
    obtain rfl : piece = [] := by simpa [splitBytes_nil] using h
    simp
  | cons x a ih =>
    rw [splitBytes_cons] at h
    split at h
    · rcases List.mem_cons.mp h with rfl | h
      · simp
      · exact ih h
    · rename_i hx
      split at h
      · rename_i hnil
        exact absurd hnil (splitBytes_ne_nil sep a)
      · rename_i p ps hps
        rcases List.mem_cons.mp h with rfl | h
        · have hp : sep ∉ p := ih (by simp [hps])
          intro hmem
          rcases List.mem_cons.mp hmem with heq | hmem
          · exact hx heq.symm
          · exact hp hmem
        · exact ih (by simp [hps, h])

/-- A text without the separator is one piece. -/
theorem splitBytes_of_not_mem (sep : UInt8) (h : sep ∉ a) : splitBytes sep a = [a] := by
  induction a with
  | nil => rfl
  | cons x a ih =>
    rw [List.mem_cons, not_or] at h
    have hx : x ≠ sep := fun hx => h.1 hx.symm
    simp [splitBytes_cons, hx, ih h.2]

/-- A separator ends a piece. -/
theorem splitBytes_append (sep : UInt8) (a b : List UInt8) :
    splitBytes sep (a ++ sep :: b) = splitBytes sep a ++ splitBytes sep b := by
  induction a with
  | nil => simp [splitBytes_nil, splitBytes_cons]
  | cons x a ih =>
    by_cases hx : x = sep
    · simp [splitBytes_cons, hx, ih]
    · obtain ⟨p, ps, hps⟩ := List.exists_cons_of_ne_nil (splitBytes_ne_nil sep a)
      simp [splitBytes_cons, hx, ih, hps]

theorem split_append (sep : UInt8) (s t : Text) : (s ++ byte sep ++ t).split sep = s.split sep ++ t.split sep := by
  have hbytes : (s ++ byte sep ++ t).bytes = s.bytes ++ sep :: t.bytes := by
    simp [bytes_append, byte]
  simp [split, hbytes, splitBytes_append]

theorem split_of_not_mem {sep : UInt8} (h : sep ∉ t.bytes) : t.split sep = [t] := by
  simp [split, splitBytes_of_not_mem sep h]

theorem split_ne_nil (sep : UInt8) (t : Text) : t.split sep ≠ [] := by
  simp [split, splitBytes_ne_nil]

theorem not_mem_split {sep : UInt8} (h : c ∈ t.split sep) : sep ∉ c.bytes := by
  obtain ⟨piece, hpiece, rfl⟩ := List.mem_map.mp h
  exact not_mem_splitBytes sep hpiece

/-- Joining pieces is undone by splitting. -/
theorem split_join {sep : UInt8} (hne : cs ≠ []) (h : ∀ c ∈ cs, sep ∉ c.bytes) : (join (byte sep) cs).split sep = cs := by
  fun_induction join (byte sep) cs with
  | case1 => exact absurd rfl hne
  | case2 c => exact split_of_not_mem (h c (by simp))
  | case3 c d cs ih =>
    have hrest : (join (byte sep) (d :: cs)).split sep = d :: cs := ih (by simp) fun e he => h e (by simp [he])
    rw [split_append, hrest, split_of_not_mem (h c (by simp))]
    rfl

/-! ### Parts of a text -/

theorem after?_append (p t : Text) : after? p (p ++ t) = some t := by
  have hprefix : p.bytes.isPrefixOf (p.bytes ++ t.bytes) = true := by simp
  simp [after?, bytes_append, hprefix, size]

theorem eq_append_of_after? {p rest : Text} (h : after? p t = some rest) : t = p ++ rest := by
  unfold after? at h
  split at h
  · rename_i hprefix
    obtain ⟨bs, hbs⟩ := List.isPrefixOf_iff_prefix.mp hprefix
    obtain rfl := Option.some.inj h
    apply Text.mk.injEq .. |>.mpr
    simp [← hbs, size]
  · cases h

theorem startsWith_iff_after? {p : Text} : t.startsWith p = true ↔ ∃ rest, after? p t = some rest := by
  unfold startsWith after?
  split <;> simp_all

theorem trimStart_append (p t : Text) : (p ++ t).trimStart p = t := by
  simp [trimStart, after?_append]

/-- The last occurrence of a byte. -/
theorem lastIndexOf?_append (s : Text) (sep : UInt8) (t : Text) (h : sep ∉ t.bytes) :
    (s ++ byte sep ++ t).lastIndexOf? sep = some s.size := by
  have hreverse : (s ++ byte sep ++ t).bytes.reverse = t.bytes.reverse ++ sep :: s.bytes.reverse := by
    simp [bytes_append, byte]
  have hfind : (t.bytes.reverse ++ sep :: s.bytes.reverse).findIdx? (· == sep) = some t.bytes.length := by
    rw [List.findIdx?_append]
    have hnone : t.bytes.reverse.findIdx? (· == sep) = none := by
      rw [List.findIdx?_eq_none_iff]
      intro x hx
      have hne : x ≠ sep := fun heq => h (heq ▸ List.mem_reverse.mp hx)
      simpa using hne
    simp [hnone, List.findIdx?_cons]
  rw [lastIndexOf?, hreverse, hfind]
  simp [size, bytes_append, byte]

/-- A text with a byte in it has a last occurrence of that byte. -/
theorem exists_last {sep : UInt8} (h : sep ∈ t.bytes) : ∃ r s : Text, t = r ++ byte sep ++ s ∧ sep ∉ s.bytes := by
  obtain ⟨xs, ys, hreverse, hxs⟩ := List.eq_append_cons_of_mem (List.mem_reverse.mpr h)
  refine ⟨⟨ys.reverse⟩, ⟨xs.reverse⟩, ?_, by simpa using hxs⟩
  have hbytes : t.bytes = ys.reverse ++ [sep] ++ xs.reverse := by
    rw [← List.reverse_reverse t.bytes, hreverse]
    simp
  cases t
  exact congrArg Text.mk hbytes

/-! ### Following components -/

section Follows

variable {here there there' cs' : List Text}

/-- **The stack of components** that cleaning makes is the way to the place that they lead to. -/
theorem follows_foldl (cs stack : List Text) (hstack : ofString ".." ∉ stack) :
    Follows stack.reverse cs (cs.foldl (pushComponent true) stack).reverse := by
  induction cs generalizing stack with
  | nil => exact .done _
  | cons c cs ih =>
    rw [List.foldl_cons]
    by_cases hstay : c = "" ∨ c = "."
    · have hpush : pushComponent true stack c = stack := by
        simp only [pushComponent, decide_eq_true_eq, Bool.or_eq_true]
        rw [if_pos hstay]
      rw [hpush]
      exact .stay hstay (ih stack hstack)
    rw [not_or] at hstay
    by_cases hup : c = ".."
    · subst hup
      have hpush : pushComponent true stack ".." = stack.tail := by
        cases stack with
        | nil => rfl
        | cons top rest =>
          have htop : top ≠ ".." := fun heq => hstack (by simp [heq])
          simp [pushComponent, hstay, htop]
      rw [hpush]
      apply Follows.up
      rw [List.dropLast_reverse]
      exact ih stack.tail fun hmem => hstack (List.mem_of_mem_tail hmem)
    · have hpush : pushComponent true stack c = c :: stack := by
        simp [pushComponent, hstay, hup]
      rw [hpush]
      apply Follows.down ⟨hstay.1, hstay.2, hup⟩
      rw [← List.reverse_cons]
      apply ih
      intro hmem
      rcases List.mem_cons.mp hmem with heq | hmem
      · exact hup heq.symm
      · exact hstack hmem

/-- What components lead to has entries only. -/
theorem Follows.entries (h : Follows here cs there) (hhere : ∀ c ∈ here, IsEntry c) (hcs : ∀ c ∈ cs, 47 ∉ c.bytes) :
    ∀ c ∈ there, IsEntry c := by
  induction h with
  | done => exact hhere
  | stay _ _ ih => exact ih hhere fun c hc => hcs c (by simp [hc])
  | up _ ih => exact ih (fun c hc => hhere c (List.mem_of_mem_dropLast hc)) fun c hc => hcs c (by simp [hc])
  | @down c _ _ _ hc _ ih =>
    apply ih
    · intro d hd
      rcases List.mem_append.mp hd with hd | hd
      · exact hhere d hd
      · obtain rfl := List.mem_singleton.mp hd
        exact ⟨hc.1, hc.2.1, hc.2.2, hcs d (by simp)⟩
    · exact fun d hd => hcs d (by simp [hd])

/-- Components lead to one place. -/
theorem Follows.unique (h : Follows here cs there) (h' : Follows here cs there') :
    there' = there := by
  induction h with
  | done => cases h'; rfl
  | stay hc _ ih =>
    cases h' with
    | stay _ h' => exact ih h'
    | up => rcases hc with hc | hc <;> exact absurd hc (by decide)
    | down hd => exact absurd hc (by simp [hd])
  | up _ ih =>
    cases h' with
    | stay hc => rcases hc with hc | hc <;> exact absurd hc (by decide)
    | up h' => exact ih h'
    | down hd => exact absurd rfl hd.2.2
  | down hd _ ih =>
    cases h' with
    | stay hc => exact absurd hc (by simp [hd])
    | up => exact absurd rfl hd.2.2
    | down _ h' => exact ih h'

/-- Entries are gone through one after another. -/
theorem follows_of_entries (here : List Text) (h : ∀ c ∈ cs, IsEntry c) : Follows here cs (here ++ cs) := by
  induction cs generalizing here with
  | nil => simpa using Follows.done here
  | cons c cs ih =>
    have hc : IsEntry c := h c (by simp)
    have hrest := ih (here ++ [c]) fun d hd => h d (by simp [hd])
    rw [List.append_assoc, List.singleton_append] at hrest
    exact .down ⟨hc.ne_empty, hc.ne_dot, hc.ne_dotDot⟩ hrest

theorem Follows.append (h : Follows here cs there) (h' : Follows there cs' there') :
    Follows here (cs ++ cs') there' := by
  induction h with
  | done => exact h'
  | stay hc _ ih => exact .stay hc (ih h')
  | up _ ih => exact .up (ih h')
  | down hc _ ih => exact .down hc (ih h')

theorem exists_follows (hhere : ofString ".." ∉ here) (cs : List Text) : ∃ there, Follows here cs there := by
  have h := follows_foldl cs here.reverse (by simpa using hhere)
  rw [List.reverse_reverse] at h
  exact ⟨_, h⟩

end Follows

/-! ### Cleaning a path from the root -/

theorem slash_eq : ("/" : Text) = byte 47 := by decide

/-- The path from the root to a place. -/
def rooted (cs : List Text) : Text := byte 47 ++ join (byte 47) cs

/-- The root and the components of a path that begins with a slash. -/
theorem split_slash (p : Text) : (byte 47 ++ p).split 47 = ofString "" :: p.split 47 := split_append 47 "" p

/-- **Cleaning a path from the root** follows its components from there. -/
theorem cleanPath_rooted {p : Text} (h : Follows [] (p.split 47) cs) : cleanPath (byte 47 ++ p) = rooted cs := by
  have hstarts : (byte 47 ++ p).startsWith (byte 47) = true :=
    startsWith_iff_after?.mpr ⟨p, after?_append _ _⟩
  have hfollows : Follows [] ((byte 47 ++ p).split 47) (cleanComponents true (byte 47 ++ p)) :=
    follows_foldl _ [] (by simp)
  have hroot : Follows [] ((byte 47 ++ p).split 47) cs := by
    rw [split_slash]
    exact .stay (.inl rfl) h
  rw [cleanPath, slash_eq]
  simp only [hstarts, if_true]
  rw [hfollows.unique hroot]
  rfl

/-- The components of a path between entries are the entries. -/
theorem follows_join (h : ∀ c ∈ cs, IsEntry c) : Follows [] ((join (byte 47) cs).split 47) cs := by
  cases cs with
  | nil => exact .stay (.inl rfl) (.done [])
  | cons c cs =>
    rw [split_join (by simp) fun d hd => (h d hd).slash]
    exact follows_of_entries [] h

/-- **The directory of a file** is what the components in front of the last one lead to. -/
theorem directory_rooted {file : Text} (h : Follows [] (file.split 47).dropLast cs) :
    directory (byte 47 ++ file) = rooted cs := by
  have hmem : (47 : UInt8) ∈ (byte 47 ++ file).bytes := by simp [bytes_append, byte]
  obtain ⟨r, s, hfile, hs⟩ := exists_last hmem
  have htake : (byte 47 ++ file).take (r.size + 1) = r ++ byte 47 := by
    rw [hfile]
    apply congrArg Text.mk
    simp [bytes_append, byte, size, List.take_append]
  -- what is in front of the last slash begins with a slash too
  obtain ⟨q, hq⟩ : ∃ q, r ++ byte 47 = byte 47 ++ q := by
    cases r with
    | mk bs =>
      cases bs with
      | nil => exact ⟨"", rfl⟩
      | cons b bs =>
        have hb : b = 47 := by
          have hhead := congrArg (fun t : Text => t.bytes.head?) hfile
          simpa [bytes_append, byte] using hhead.symm
        exact ⟨⟨bs⟩ ++ byte 47, by rw [hb]; rfl⟩
  have hparts : ofString "" :: (file.split 47).dropLast = r.split 47 := by
    have hsplit := congrArg (fun t : Text => t.split 47) hfile
    simp only [split_slash, split_append, split_of_not_mem hs] at hsplit
    rw [← List.dropLast_cons_of_ne_nil (split_ne_nil 47 file), hsplit, List.dropLast_concat]
  have hqparts : q.split 47 = (file.split 47).dropLast ++ [ofString ""] := by
    have hsplit := congrArg (fun t : Text => t.split 47) hq
    have hlast : (r ++ byte 47).split 47 = r.split 47 ++ [ofString ""] := by
      have hlast := split_append 47 r ""
      have hnothing : r ++ byte 47 ++ ofString "" = r ++ byte 47 := congrArg Text.mk (List.append_nil _)
      rwa [hnothing] at hlast
    simp only [hlast, split_slash, ← hparts] at hsplit
    exact (List.cons.inj hsplit).2.symm
  have hclean : cleanPath (byte 47 ++ q) = rooted cs := by
    apply cleanPath_rooted
    rw [hqparts]
    exact h.append (.stay (.inl rfl) (.done cs))
  have hindex : (byte 47 ++ file).lastIndexOf? 47 = some r.size := by
    rw [hfile]
    exact lastIndexOf?_append r 47 s hs
  rw [directory, hindex]
  simp only [htake, hq, hclean]

/-- **A path seen from a directory** follows its components from there. -/
theorem joinPath_rooted {here : List Text} {p : Text} (hhere : ∀ c ∈ here, IsEntry c)
    (h : Follows here (p.split 47) cs) : joinPath (rooted here) p = rooted cs := by
  have hdir : (rooted here).isEmpty = false := rfl
  by_cases hp : p = ""
  · subst hp
    have hcs : cs = here := by
      have hstay : Follows here [""] here := .stay (.inl rfl) (.done here)
      exact hstay.unique h
    have hjoin : join "/" ([rooted here, ""].filter (!·.isEmpty)) = rooted here := rfl
    rw [joinPath, hjoin, hcs]
    exact cleanPath_rooted (follows_join hhere)
  · have hjoin : join "/" ([rooted here, p].filter (!·.isEmpty)) = byte 47 ++ (join (byte 47) here ++ byte 47 ++ p) := by
      have hne : p.isEmpty = false := isEmpty_eq_false_iff.mpr hp
      simp only [List.filter_cons, hdir, hne]
      rfl
    rw [joinPath, hjoin]
    apply cleanPath_rooted
    rw [split_append]
    exact (follows_join hhere).append h

/-! ### Resolved paths -/

/-- The path of a place in the project. -/
def resourceAt (cs : List Text) : Text := resourceScheme ++ join (byte 47) cs

/-- A path with the scheme of the project is followed from its root, whatever file it stands in. -/
theorem resolvePath_resource (source : Text) {rest : Text} (h : Follows [] (rest.split 47) cs) :
    resolvePath source (resourceScheme ++ rest) = resourceAt cs := by
  simp only [resolvePath, after?_append, slash_eq, cleanPath_rooted h, rooted, trimStart_append]
  rfl

/-- A relative path is followed from the directory of the file that it stands in. -/
theorem resolvePath_relative {file p : Text} {here : List Text} (hscheme : after? resourceScheme p = none)
    (hplain : p.startsWith "/" = false ∧ p.contains "://" = false) (hdir : Follows [] (file.split 47).dropLast here)
    (h : Follows here (p.split 47) cs) : resolvePath (resourceScheme ++ file) p = resourceAt cs := by
  have hhere : ∀ c ∈ here, IsEntry c :=
    hdir.entries (by simp) fun c hc => not_mem_split (List.mem_of_mem_dropLast hc)
  have hsource : (resourceScheme ++ file).startsWith resourceScheme = true :=
    startsWith_iff_after?.mpr ⟨file, after?_append _ _⟩
  simp only [resolvePath, hscheme, hplain, hsource, trimStart_append]
  rw [slash_eq, directory_rooted hdir, joinPath_rooted hhere h, rooted, trimStart_append]
  rfl

/-- **Resolved paths stay inside of the project.** In a file of the project, let a path have the scheme of the project,
or be relative: it does not begin with a slash, and there is no `://` in it. It is resolved to the place that its
components lead to, whose path has nothing but entries behind the scheme; and a resolved path is resolved to itself in
every file. -/
theorem resolvePath_inside (file p : Text)
    (hp : p.startsWith resourceScheme = true ∨ p.startsWith "/" = false ∧ p.contains "://" = false) :
    ∃ cs, resolvePath (resourceScheme ++ file) p = resourceAt cs ∧ (∀ c ∈ cs, IsEntry c) ∧
      Follows [] (named file p) cs ∧ ∀ other, resolvePath other (resourceAt cs) = resourceAt cs := by
  have hslash : ∀ c ∈ named file p, 47 ∉ c.bytes := by
    intro c hc
    unfold named at hc
    split at hc
    · exact not_mem_split hc
    · rcases List.mem_append.mp hc with hc | hc
      · exact not_mem_split (List.mem_of_mem_dropLast hc)
      · exact not_mem_split hc
  obtain ⟨cs, hfollows⟩ : ∃ cs, Follows [] (named file p) cs := exists_follows (by simp) _
  have hentries : ∀ c ∈ cs, IsEntry c := hfollows.entries (by simp) hslash
  have hagain : ∀ other, resolvePath other (resourceAt cs) = resourceAt cs :=
    fun other => resolvePath_resource other (follows_join hentries)
  refine ⟨cs, ?_, hentries, hfollows, hagain⟩
  cases hscheme : after? resourceScheme p with
  | some rest =>
    obtain rfl := eq_append_of_after? hscheme
    have hnamed : named file (resourceScheme ++ rest) = rest.split 47 := by rw [named, hscheme]
    rw [hnamed] at hfollows
    exact resolvePath_resource _ hfollows
  | none =>
    have hplain : p.startsWith "/" = false ∧ p.contains "://" = false := by
      rcases hp with hp | hp
      · obtain ⟨rest, hrest⟩ := startsWith_iff_after?.mp hp
        rw [hscheme] at hrest
        cases hrest
      · exact hp
    obtain ⟨here, hdir⟩ : ∃ here, Follows [] (file.split 47).dropLast here := exists_follows (by simp) _
    have hhere : ∀ c ∈ here, IsEntry c :=
      hdir.entries (by simp) fun c hc => not_mem_split (List.mem_of_mem_dropLast hc)
    obtain ⟨there, hthere⟩ := exists_follows (fun hmem => (hhere _ hmem).ne_dotDot rfl) (p.split 47)
    have hnamed : named file p = (file.split 47).dropLast ++ p.split 47 := by rw [named, hscheme]
    rw [hnamed] at hfollows
    rw [hfollows.unique (hdir.append hthere)] at hthere
    exact resolvePath_relative hscheme hplain hdir hthere

/-- A path that goes up beyond the root. -/
theorem resolvePath_inside_beyond :
    (("../../../x/./y//z.gd" : Text).startsWith "/" = false ∧ ("../../../x/./y//z.gd" : Text).contains "://" = false) ∧
      ∃ cs, resolvePath (resourceScheme ++ "a/b.gd") "../../../x/./y//z.gd" = resourceAt cs ∧ (∀ c ∈ cs, IsEntry c) ∧
        Follows [] (named "a/b.gd" "../../../x/./y//z.gd") cs ∧
        ∀ other, resolvePath other (resourceAt cs) = resourceAt cs :=
  have hplain : ("../../../x/./y//z.gd" : Text).startsWith "/" = false ∧
      ("../../../x/./y//z.gd" : Text).contains "://" = false := by decide
  ⟨hplain, resolvePath_inside "a/b.gd" "../../../x/./y//z.gd" (.inr hplain)⟩

example : resolvePath "res://a/b.gd" "../../../x/./y//z.gd" = "res://x/y/z.gd" := by decide

end GameScript.Text
