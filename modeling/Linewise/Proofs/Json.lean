/-
The objects of a JSON text.

* `Json.Distinct` — no object of a value has two members of one name;
* `Json.distinct_ofString` — so it is in every value that a text spells, whatever the text
  repeats.

Design notes: an object gets its canonical members when it is closed, so the invariant of the
reading is about the values that are whole already.
-/
import Linewise.Json.Reader
import Linewise.Proofs.Results

namespace Linewise

/-- No object of the value has two members of one name. -/
inductive Json.Distinct : Json → Prop
  | null : Distinct .null
  | bool (b : Bool) : Distinct (.bool b)
  | number (x : Float) : Distinct (.number x)
  | string (s : String) : Distinct (.string s)
  | array {items : List Json} (hitems : ∀ item ∈ items, Distinct item) : Distinct (.array items)
  | object {members : List (String × Json)} (hnames : (members.map Prod.fst).Nodup)
      (hvalues : ∀ value ∈ members.map Prod.snd, Distinct value) : Distinct (.object members)

theorem Json.Distinct.lookup {members : List (String × Json)} {name : String} {value : Json}
    (h : (Json.object members).Distinct) (hvalue : members.lookup name = some value) :
    value.Distinct := by
  obtain ⟨before, after, rfl, -⟩ := List.lookup_eq_some_iff.mp hvalue
  cases h with
  | object _ hvalues => exact hvalues value (by simp)

/-! ### Canonical members -/

namespace Entries

variable {α : Type} {name : String} {value v : α} {entries writes : List (String × α)}

theorem mem_values_set (h : v ∈ (set name value entries).map Prod.snd) :
    v = value ∨ v ∈ entries.map Prod.snd := by
  induction entries with
  | nil => simpa [set] using h
  | cons entry rest ih =>
    rw [set] at h
    split at h
    · rcases List.mem_cons.mp h with rfl | h
      · exact Or.inl rfl
      · exact Or.inr (List.mem_cons_of_mem _ h)
    · rcases List.mem_cons.mp h with rfl | h
      · exact Or.inr List.mem_cons_self
      · exact (ih h).imp id (List.mem_cons_of_mem _)

/-- What a list of writes leaves has distinct names and no other values than were written. -/
theorem ofList_spec (writes : List (String × α)) : (names (ofList writes)).Nodup ∧
    ∀ v ∈ (ofList writes).map Prod.snd, v ∈ writes.map Prod.snd := by
  -- Said of writes on top of any entries, so that it holds of the fold's every start.
  have hfold : ∀ entries : List (String × α), (names entries).Nodup →
      (names (writes.foldl (fun es w => set w.1 w.2 es) entries)).Nodup ∧
        ∀ v ∈ (writes.foldl (fun es w => set w.1 w.2 es) entries).map Prod.snd,
          v ∈ entries.map Prod.snd ∨ v ∈ writes.map Prod.snd := by
    induction writes with
    | nil => exact fun entries hentries => ⟨hentries, fun v hv => Or.inl hv⟩
    | cons w writes ih =>
      intro entries hentries
      obtain ⟨hnames, hvalues⟩ := ih _ (nodup_names_set w.1 w.2 hentries)
      refine ⟨hnames, fun v hv => ?_⟩
      rcases hvalues v hv with hv | hv
      · rcases mem_values_set hv with rfl | hv
        · exact Or.inr List.mem_cons_self
        · exact Or.inl hv
      · exact Or.inr (List.mem_cons_of_mem _ hv)
  obtain ⟨hnames, hvalues⟩ := hfold [] List.nodup_nil
  exact ⟨hnames, fun v hv => (hvalues v hv).resolve_left (by simp)⟩

end Entries

namespace Json

/-- Canonical order moves entries and drops none. -/
theorem canonicalMembers_perm (members : List (String × Json)) :
    (canonicalMembers members).Perm (Entries.ofList members) := by
  have hmap : ∀ entries : List (String × Json),
      ((entries.filterMap fun m => (index? m.1).map fun i => (i, m)).map Prod.snd) =
        entries.filter fun m => (index? m.1).isSome := by
    intro entries
    induction entries with
    | nil => rfl
    | cons m entries ih => cases hm : index? m.1 <;> simp [hm, ih]
  have hnot : ∀ m : String × Json, (index? m.1).isNone = !(index? m.1).isSome :=
    fun m => by cases index? m.1 <;> rfl
  have hsorted := (List.mergeSort_perm
    ((Entries.ofList members).filterMap fun m => (index? m.1).map fun i => (i, m))
    fun a b => decide (a.1 ≤ b.1)).map Prod.snd
  rw [hmap] at hsorted
  have hfilter := List.filter_append_perm (fun m : String × Json => (index? m.1).isSome)
    (Entries.ofList members)
  simp only [canonicalMembers, hnot]
  exact (hsorted.append_right _).trans hfilter

theorem distinct_ofMembers {members : List (String × Json)}
    (h : ∀ value ∈ members.map Prod.snd, Distinct value) : (ofMembers members).Distinct := by
  obtain ⟨hnames, hvalues⟩ := Entries.ofList_spec members
  have hperm := canonicalMembers_perm members
  refine .object ((hperm.map Prod.fst).nodup_iff.mpr hnames) fun value hvalue => ?_
  exact h value (hvalues value ((hperm.map Prod.snd).mem_iff.mp hvalue))

end Json

/-! ### The reading -/

/-- The values that a container holds so far. -/
def JsonFrame.values : JsonFrame → List Json
  | array items => items
  | object members => members.map Prod.snd
  | member members _ => members.map Prod.snd

namespace JsonReading

open Json

variable {r r' : JsonReading} {frames : List JsonFrame} {t : JsonToken} {value : Json}

/-- The values that are whole: those in open containers, and the one that the text spells. -/
structure Distinct (r : JsonReading) : Prop where
  frames : ∀ f ∈ r.frames, ∀ value ∈ f.values, value.Distinct
  result : ∀ value, r.expected = .nothing value → value.Distinct

theorem distinct_complete (hvalue : value.Distinct)
    (hframes : ∀ f ∈ frames, ∀ value ∈ f.values, value.Distinct)
    (h : complete value frames = .ok r') : r'.Distinct := by
  cases frames with
  | nil =>
    obtain rfl := Except.ok.inj h
    refine ⟨by simp, fun v hv => ?_⟩
    obtain rfl := JsonExpected.nothing.inj hv
    exact hvalue
  | cons f frames =>
    obtain ⟨hf, hrest⟩ := List.forall_mem_cons.mp hframes
    cases f with
    | array items =>
      obtain rfl := Except.ok.inj h
      exact ⟨List.forall_mem_cons.mpr ⟨List.forall_mem_cons.mpr ⟨hvalue, hf⟩, hrest⟩, by simp⟩
    | member members name =>
      obtain rfl := Except.ok.inj h
      exact ⟨List.forall_mem_cons.mpr ⟨List.forall_mem_cons.mpr ⟨hvalue, hf⟩, hrest⟩, by simp⟩
    | object members => exact absurd h (by simp [complete])

theorem distinct_beginValue (hframes : ∀ f ∈ frames, ∀ value ∈ f.values, value.Distinct)
    (h : beginValue frames t = .ok r') : r'.Distinct := by
  cases t with
  | null => exact distinct_complete .null hframes h
  | bool b => exact distinct_complete (.bool b) hframes h
  | number x => exact distinct_complete (.number x) hframes h
  | string s => exact distinct_complete (.string s) hframes h
  | beginArray | beginObject =>
    obtain rfl := Except.ok.inj h
    exact ⟨List.forall_mem_cons.mpr ⟨by simp [JsonFrame.values], hframes⟩, by simp⟩
  | _ => exact absurd h (by simp [beginValue])

theorem distinct_close (hframes : ∀ f ∈ frames, ∀ value ∈ f.values, value.Distinct)
    (h : close t frames = .ok r') : r'.Distinct := by
  unfold close at h
  split at h
  · obtain ⟨hitems, hframes⟩ := List.forall_mem_cons.mp hframes
    split at h
    · exact distinct_complete (.array fun item hitem => hitems item (List.mem_reverse.mp hitem))
        hframes h
    · exact absurd h (by simp)
  · obtain ⟨hmembers, hframes⟩ := List.forall_mem_cons.mp hframes
    split at h
    · refine distinct_complete (distinct_ofMembers fun value hvalue => hmembers value ?_) hframes h
      rwa [List.map_reverse, List.mem_reverse] at hvalue
    · exact absurd h (by simp)
  · exact absurd h (by simp)

theorem distinct_beginMember (hframes : ∀ f ∈ frames, ∀ value ∈ f.values, value.Distinct)
    (h : beginMember t frames = .ok r') : r'.Distinct := by
  unfold beginMember at h
  split at h
  · obtain ⟨hmembers, hframes⟩ := List.forall_mem_cons.mp hframes
    split at h
    · obtain rfl := Except.ok.inj h
      exact ⟨List.forall_mem_cons.mpr ⟨hmembers, hframes⟩, by simp⟩
    · exact absurd h (by simp)
  · exact absurd h (by simp)

theorem distinct_step (hr : r.Distinct) (h : r.step t = .ok r') : r'.Distinct := by
  unfold step at h
  split at h
  · exact distinct_beginValue hr.frames h
  · split at h
    · exact distinct_close hr.frames h
    · exact distinct_beginValue hr.frames h
  · exact distinct_beginMember hr.frames h
  · split at h
    · exact distinct_close hr.frames h
    · exact distinct_beginMember hr.frames h
  · split at h
    · obtain rfl := Except.ok.inj h
      exact ⟨hr.frames, by simp⟩
    · exact absurd h (by simp)
  · split at h
    · obtain rfl := Except.ok.inj h
      refine ⟨hr.frames, fun value hvalue => ?_⟩
      unfold afterComma at hvalue
      split at hvalue <;> exact absurd hvalue (by simp)
    · exact distinct_close hr.frames h
  · exact absurd h (by simp)

theorem distinct_foldlM {tokens : List JsonToken} (hr : r.Distinct)
    (h : tokens.foldlM step r = .ok r') : r'.Distinct := by
  induction tokens generalizing r with
  | nil =>
    obtain rfl := Except.ok.inj h
    exact hr
  | cons t tokens ih =>
    rw [List.foldlM_cons] at h
    obtain ⟨next, hstep, hnext⟩ := bind_eq_ok_iff.mp h
    exact ih (distinct_step hr hstep) hnext

end JsonReading

/-- Whatever names a text repeats, the objects that it spells have distinct ones. -/
theorem Json.distinct_ofString {text : String} {j : Json} (h : Json.ofString text = .ok j) :
    j.Distinct := by
  rw [Json.ofString] at h
  obtain ⟨tokens, -, h⟩ := bind_eq_ok_iff.mp h
  obtain ⟨reading, hreading, h⟩ := bind_eq_ok_iff.mp h
  have hstart : JsonReading.start.Distinct := ⟨by simp [JsonReading.start],
    by simp [JsonReading.start]⟩
  have hdistinct := JsonReading.distinct_foldlM hstart hreading
  unfold JsonReading.finish at h
  split at h
  · next value hvalue =>
    obtain rfl := Except.ok.inj h
    exact hdistinct.result _ hvalue
  · exact absurd h (by simp)

end Linewise
