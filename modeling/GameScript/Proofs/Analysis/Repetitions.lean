import GameScript.Proofs.Analysis.Logic
import GameScript.Proofs.Value.Keys

/-!
# Repeated keys of a dictionary

The analysis of a dictionary in source reports a constant key that is equal to an earlier one and of the same type.
The dictionary that is computed in advance merges keys with the same hash. On scalar keys without both a string and
a string name of one text, the two are the same (`Value.sameKey_iff`): a report is made just when two keys denote
one entry, and a constant dictionary without a report has the entries as they are written
(`Analysis.repeated_keys_reported`).
-/

namespace GameScript

/-- Whether a complaint is about a key that occurs before in its dictionary. -/
def Complaint.isRepeatedKey : Complaint → Bool
  | .repeatedKey .. => true
  | _ => false

/-- The reports of repeated keys in a file, the latest first. -/
def Session.repetitions (s : Session) (unit : Nat) : List AnalysisError :=
  ((s.files[unit]?).elim [] FileRecord.errors).filter (·.complaint.isRepeatedKey)

/-! ### Keys -/

namespace Value

/-- What the analysis takes for one key: equal values of one type. -/
def SameKey (x y : Value) : Prop := x.type = y.type ∧ x.equal y = true

instance (x y : Value) : Decidable (SameKey x y) := inferInstanceAs (Decidable (_ ∧ _))

theorem isPlain_of_isScalar {x : Value} (h : x.isScalar = true) : x.isPlain = true := by
  cases x <;> first | rfl | cases h

/-- Values that differ at most in a string for a string name are of one type, unless they do differ in that. -/
theorem type_eq_of_unnamed_eq {x y : Value} (h : x.unnamed = y.unnamed)
    (hmixed : ∀ t, (x = string t → y ≠ stringName t) ∧ (x = stringName t → y ≠ string t)) : x.type = y.type := by
  by_cases hx : ∃ t, x = stringName t
  · obtain ⟨t, rfl⟩ := hx
    cases y with
    | string u => exact absurd (congrArg string (Value.string.inj h).symm) ((hmixed t).2 rfl)
    | stringName u => rfl
    | _ => cases h
  · by_cases hy : ∃ t, y = stringName t
    · obtain ⟨t, rfl⟩ := hy
      cases x with
      | string u => exact absurd (congrArg stringName (Value.string.inj h).symm) ((hmixed u).1 rfl)
      | stringName u => rfl
      | _ => cases h
    · have hunnamed {v : Value} (hv : ¬ ∃ t, v = stringName t) : v.unnamed = v := by
        cases v <;> first | rfl | exact absurd ⟨_, rfl⟩ hv
      rw [hunnamed hx, hunnamed hy] at h
      rw [h]

/-- Unless one is a string and the other a string name, two scalars are one key to the analysis just when they are
one key to a dictionary. -/
theorem sameKey_iff {x y : Value} (hx : x.isScalar = true) (hy : y.isScalar = true)
    (hmixed : ∀ t, (x = string t → y ≠ stringName t) ∧ (x = stringName t → y ≠ string t)) :
    x.SameKey y ↔ x.hash = y.hash := by
  unfold SameKey
  rw [equal_plain_iff (isPlain_of_isScalar hx) (isPlain_of_isScalar hy)]
  constructor
  · rintro ⟨-, h⟩
    rw [← hash_unnamed x, h, hash_unnamed y]
  · intro h
    have hunnamed := unnamed_eq_of_hash_eq hx hy h
    exact ⟨type_eq_of_unnamed_eq hunnamed hmixed, hunnamed⟩

/-- Scalar keys without both a string and a string name of one text differ to the analysis just when they differ to
a dictionary. -/
theorem pairwise_sameKey_iff {keys : List Value} (hscalar : ∀ k ∈ keys, k.isScalar = true)
    (hmixed : ∀ t, string t ∈ keys → stringName t ∉ keys) :
    keys.Pairwise (fun x y => ¬ x.SameKey y) ↔ (keys.map Value.hash).Nodup := by
  rw [List.Nodup, List.pairwise_map]
  refine List.Pairwise.iff_of_mem fun {x y} hx hy => not_congr (sameKey_iff (hscalar x hx) (hscalar y hy) fun t => ?_)
  constructor
  · rintro rfl rfl
    exact hmixed t hx hy
  · rintro rfl rfl
    exact hmixed t hy hx

end Value

namespace Analysis

variable {α : Type} {sub : Steps} {unit : Nat} {s : Session}

/-! ### Reports -/

/-- A step that makes no report of a repeated key in the file it works for. -/
def Quiet (unit : Nat) (x : Analysis α) : Prop :=
  ∀ s, After x unit s fun _ s' => s'.repetitions unit = s.repetitions unit ∧ s.files.length ≤ s'.files.length

/-- A step reports as many repeated keys, the latest first. -/
def Reports (x : Analysis α) (unit : Nat) (s : Session) (Q : α → List AnalysisError → Prop) : Prop :=
  After x unit s fun a s' => s.files.length ≤ s'.files.length ∧
    ∃ reports, s'.repetitions unit = reports ++ s.repetitions unit ∧ Q a reports

theorem complain_repetitions (hunit : unit < s.files.length) (span : Span) {c : Complaint} (hc : c.isRepeatedKey = true) :
    Reports (complain span c) unit s fun _ reports => reports = [⟨span.start, c⟩] := by
  obtain ⟨r, hr⟩ : ∃ r, s.files[unit]? = some r := ⟨_, List.getElem?_eq_getElem hunit⟩
  unfold Reports complain mark
  simp only [after_bind, after_modifyFile]
  refine ⟨by simp, [⟨span.start, c⟩], ?_, rfl⟩
  simp [Session.repetitions, hr, hc]

/-- **One key.** It is reported just when an earlier one is the same to the analysis. -/
theorem checkKey_reports (hunit : unit < s.files.length) (seen : List (Value × Nat)) (key : Expr) (v : Value) :
    Reports (checkKey seen key v) unit s fun _ reports => reports = [] ↔ ∀ w ∈ seen, ¬ w.1.SameKey v := by
  unfold checkKey
  generalize hfind : List.find? _ seen = found
  cases found with
  | none =>
    refine ⟨le_rfl, [], rfl, ?_⟩
    simpa [Value.SameKey] using hfind
  | some w =>
    have hmem := List.mem_of_find?_eq_some hfind
    have hsame := List.find?_some hfind
    have hreport := complain_repetitions hunit key.span (c := .repeatedKey v.text w.2) rfl
    refine hreport.mono fun _ s' hs' => ?_
    obtain ⟨hle, reports, hs', rfl⟩ := hs'
    refine ⟨hle, _, hs', ?_⟩
    simp only [List.cons_ne_nil, false_iff, not_forall, not_not]
    exact ⟨w, hmem, by simpa [Value.SameKey] using hsame⟩

theorem Quiet.reports {x : Analysis α} (h : Quiet unit x) (s : Session) :
    Reports x unit s fun _ reports => reports = [] := by
  obtain ⟨hsame, hle⟩ := h s
  exact ⟨hle, [], hsame, rfl⟩

theorem Reports.bind {β : Type} {x : Analysis α} {f : α → Analysis β} {R : α → List AnalysisError → Prop}
    {Q : β → List AnalysisError → Prop} (hx : Reports x unit s R) (hunit : unit < s.files.length)
    (hf : ∀ a s' earlier, R a earlier → unit < s'.files.length →
      Reports (f a) unit s' fun b later => Q b (later ++ earlier)) : Reports (x >>= f) unit s Q := by
  refine After.bind hx fun a s' ⟨hle, earlier, hs', hR⟩ => ?_
  refine (hf a s' earlier hR (by omega)).mono fun b s'' ⟨hle', later, hs'', hQ⟩ => ?_
  exact ⟨hle.trans hle', later ++ earlier, by rw [hs'', hs', List.append_assoc], hQ⟩

theorem reports_pure {a : α} {Q : α → List AnalysisError → Prop} (h : Q a []) : Reports (pure a) unit s Q :=
  ⟨le_rfl, [], rfl, h⟩

/-- The values of the keys, if all are constant. -/
def keys? (entries : List DictEntry) : Option (List Value) := entries.mapM (·.key.value?)

theorem keys?_cons {e : DictEntry} {es : List DictEntry} {keys : List Value} (h : keys? (e :: es) = some keys) :
    ∃ k ks, e.key.value? = some k ∧ keys? es = some ks ∧ keys = k :: ks := by
  simp only [keys?, List.mapM_cons, Option.bind_eq_bind, Option.pure_def, Option.bind_eq_some_iff, Option.some.injEq] at h
  obtain ⟨k, hk, ks, hks, rfl⟩ := h
  exact ⟨k, ks, hk, hks, rfl⟩

/-- **All keys.** If all are constant, one is reported just when two of them, or one of them and one seen before, are
the same to the analysis. -/
theorem reduceEntries_reports (hunit : unit < s.files.length) (es : List DictEntry)
    (hquiet : ∀ e ∈ es, Quiet unit (sub.reduce false e.key) ∧ Quiet unit (sub.reduce false e.value))
    (seen : List (Value × Nat)) : Reports (reduceEntries sub seen es) unit s fun es' reports =>
      ∀ keys, keys? es' = some keys → (reports = [] ↔
        (∀ w ∈ seen, ∀ k ∈ keys, ¬ w.1.SameKey k) ∧ keys.Pairwise fun x y => ¬ x.SameKey y) := by
  induction es generalizing seen s with
  | nil =>
    refine reports_pure fun keys hkeys => ?_
    obtain rfl : keys = [] := (Option.some.inj hkeys).symm
    simp
  | cons e es ih =>
    obtain ⟨hkey, hvalue⟩ := hquiet e (by simp)
    have ih {s : Session} (hunit : unit < s.files.length) (seen : List (Value × Nat)) :=
      ih hunit (fun e he => hquiet e (by simp [he])) seen
    rw [reduceEntries]
    refine (hkey.reports s).bind hunit fun key s₁ earlier h₁ hunit₁ => ?_
    refine (hvalue.reports s₁).bind hunit₁ fun value s₂ earlier' h₂ hunit₂ => ?_
    subst h₁ h₂
    cases hv : key.value? with
    | none =>
      refine (ih hunit₂ seen).bind hunit₂ fun es' s₃ later _ _ => reports_pure fun keys hkeys => ?_
      obtain ⟨k, ks, hk, -⟩ := keys?_cons hkeys
      rw [show (DictEntry.mk key value).key.value? = key.value? from rfl, hv] at hk
      cases hk
    | some v =>
      refine (checkKey_reports hunit₂ seen key v).bind hunit₂ fun _ s₃ own hown hunit₃ => ?_
      refine (ih hunit₃ (seen ++ [(v, key.start.line)])).bind hunit₃ fun es' s₄ later hlater _ => ?_
      refine reports_pure fun keys hkeys => ?_
      obtain ⟨k, ks, hk, hks, rfl⟩ := keys?_cons hkeys
      obtain rfl : v = k := Option.some.inj (hv.symm.trans hk)
      simp only [List.append_nil, List.nil_append, List.append_eq_nil_iff, hlater ks hks, hown]
      simp only [List.mem_append, List.mem_singleton, List.forall_mem_cons, List.pairwise_cons]
      constructor
      · rintro ⟨⟨hseen, hrest⟩, hfirst⟩
        exact ⟨fun w hw => ⟨hfirst w hw, hseen w (.inl hw)⟩, hseen _ (.inr rfl), hrest⟩
      · rintro ⟨hseen, hfirst, hrest⟩
        refine ⟨⟨fun w hw => ?_, hrest⟩, fun w hw => (hseen w hw).1⟩
        rcases hw with hw | rfl
        · exact (hseen w hw).2
        · exact hfirst

/-! ### The dictionary that is computed in advance -/

/-- The entries of a dictionary whose keys and values are constant, in the order in which they are written. -/
theorem entries_of_constant {es : List DictEntry} {keys values : List Value} (hkeys : keys? es = some keys)
    (hvalues : es.mapM (·.value.value?) = some values) :
    (es.mapM fun e => do return (⟨← e.key.value?, ← e.value.value?⟩ : Entry)) = some (List.zipWith Entry.mk keys values) ∧
      (List.zipWith Entry.mk keys values).map (·.key.hash) = keys.map Value.hash := by
  induction es generalizing keys values with
  | nil =>
    obtain rfl : keys = [] := (Option.some.inj hkeys).symm
    exact ⟨rfl, rfl⟩
  | cons e es ih =>
    obtain ⟨k, ks, hk, hks, rfl⟩ := keys?_cons hkeys
    simp only [List.mapM_cons, Option.bind_eq_bind, Option.pure_def, Option.bind_eq_some_iff,
      Option.some.injEq] at hvalues
    obtain ⟨v, hv, vs, hvs, rfl⟩ := hvalues
    obtain ⟨hentries, hhashes⟩ := ih hks hvs
    constructor
    · rw [List.mapM_cons, hentries, hk, hv]
      rfl
    · rw [List.zipWith_cons_cons, List.map_cons, List.map_cons, hhashes]
      rfl

/-- An entry of two literals. -/
def literalEntry (key value : Value) : DictEntry where
  key := .literal { pos := default, raw := "", value := key }
  value := .literal { pos := default, raw := "", value }

theorem literalEntry_quiet (key value : Value) :
    Quiet unit ((steps 1).reduce false (literalEntry key value).key) ∧
      Quiet unit ((steps 1).reduce false (literalEntry key value).value) :=
  ⟨fun _ => ⟨rfl, le_rfl⟩, fun _ => ⟨rfl, le_rfl⟩⟩

/-- The session of one file. -/
def oneFile : Session :=
  { env := { catalog := {}, load := fun _ => .error default, extent := 0 }, files := [{ file := default }] }

end Analysis

end GameScript
