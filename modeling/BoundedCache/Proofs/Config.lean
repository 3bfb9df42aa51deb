import Mathlib.Data.List.Nodup
import Mathlib.Data.List.Forall2
import BoundedCache.Config
import BoundedCache.Statistics
import BoundedCache.Proofs.Format

/-!
# Configurations keep their values as documents

A configuration, a policy and the counters are each read back from the text that is written for
them, in every lawful format.  A configuration can also be written by hand, with some of its fields
only: as an object, in any order and among fields that mean nothing, or as an array that stops
early.  `replacing` says which configuration that is, and `Field.Decodes` when a document has the
value of a field.

Everything comes down to what a record is given for each of its fields: the document that stands
there for a given field, and nothing for another (`ofDocument?_of_record`).
-/

namespace BoundedCache

namespace Document

variable {name : String} {d : Document} {fields : List (String × Document)}

/-! ## Finding fields -/

/-- A field is found if all that is written under its name is the same. -/
theorem lookup_eq_some (hmem : (name, d) ∈ fields) (honly : ∀ d', (name, d') ∈ fields → d' = d) :
    fields.lookup name = some d := by
  cases hlookup : fields.lookup name with
  | none =>
      have hnone := List.lookup_eq_none_iff.mp hlookup (name, d) hmem
      simp at hnone
  | some d' =>
      obtain ⟨left, right, rfl, -⟩ := List.lookup_eq_some_iff.mp hlookup
      rw [honly d' (List.mem_append_right _ List.mem_cons_self)]

theorem lookup_eq_none (habsent : ∀ d, (name, d) ∉ fields) : fields.lookup name = none := by
  refine List.lookup_eq_none_iff.mpr fun x hx => ?_
  simp only [bne_iff_ne]
  rintro rfl
  exact habsent x.2 hx

theorem mapM_eq_some {α β : Type} {f : α → Option β} {as : List α} {bs : List β}
    (h : List.Forall₂ (fun a b => f a = some b) as bs) : as.mapM f = some bs := by
  induction h with
  | nil => rfl
  | cons hfirst _ ih => simp [List.mapM_cons, hfirst, ih]

/-- Values that are written under different names are found under them. -/
theorem mapM_lookup_zip {α : Type} {encode : α → Document} {decode : Document → Option α}
    {names : List String} {values : List α} (hnodup : names.Nodup)
    (hlength : names.length = values.length) (hdecode : ∀ a ∈ values, decode (encode a) = some a) :
    ((names.map fun name => (names.zip (values.map encode)).lookup name).mapM
      fun value => value.bind decode) = some values := by
  have hkeys : ((names.zip (values.map encode)).map Prod.fst).Nodup := by
    rw [List.map_fst_zip (by simp [hlength])]
    exact hnodup
  rw [List.mapM_map]
  refine mapM_eq_some (List.forall₂_iff_zip.mpr ⟨hlength, fun {name a} hmem => ?_⟩)
  have hmem' : (name, encode a) ∈ names.zip (values.map encode) := by
    rw [List.zip_map_right]
    exact List.mem_map.mpr ⟨(name, a), hmem, rfl⟩
  have hfound : (names.zip (values.map encode)).lookup name = some (encode a) :=
    lookup_eq_some hmem' fun d hd =>
      congrArg Prod.snd (List.inj_on_of_nodup_map hkeys hd hmem' rfl)
  rw [Function.comp_apply, hfound, Option.bind_some]
  exact hdecode a (List.of_mem_zip hmem).2

end Document

variable {F : Format}

namespace PolicyChoice

theorem ofDocument?_toDocument (hF : F.Lawful) (p : PolicyChoice) :
    ofDocument? F p.toDocument = some p := by
  have hname : p.name ∈ names := by cases p <;> simp [name, names]
  have hchoice := hF.choice_object hname
  cases p with
  | random seed =>
      have hrecord : F.record? false ["seed"] (.object [("seed", .ofOptionalWord seed)]) = _ :=
        hF.record_of_nodup (by simp) false
      have hseed := hF.optionalWord_ofOptionalWord seed
      simp_all [toDocument, name, ofDocument?, Format.fieldOr]
  | fifo | lifo | lru | mru | lfu | clock =>
      have hrecord : F.record? false [] (.object []) = _ := hF.record_of_nodup (by simp) false
      simp_all [toDocument, name, ofDocument?, plain]

theorem plain_toDocument (p : PolicyChoice) : Document.Plain 2 p.toDocument := by
  refine .object fun x hx => ?_
  obtain rfl := List.mem_singleton.mp hx
  refine .object fun x hx => ?_
  cases p with
  | random seed =>
      obtain rfl := List.mem_singleton.mp hx
      exact Document.plain_ofOptionalWord seed
  | fifo | lifo | lru | mru | lfu | clock => exact absurd hx List.not_mem_nil

end PolicyChoice

namespace Statistics

theorem ofDocument?_toDocument (hF : F.Lawful) (s : Statistics) :
    ofDocument? F s.toDocument = some s := by
  have hnodup : fieldNames.Nodup := by decide
  have hlength : fieldNames.length = s.values.length := rfl
  have hvalues := Document.mapM_lookup_zip hnodup hlength fun n _ => hF.word_ofWord n
  have hkeys : ((fieldNames.zip (s.values.map Document.ofWord)).map Prod.fst).Nodup := by
    rw [List.map_fst_zip (by simp [hlength])]
    exact hnodup
  simp only [toDocument, ofDocument?, hF.record_of_nodup hkeys, Option.bind_eq_bind,
    Option.bind_some, hvalues]
  rfl

theorem plain_toDocument (s : Statistics) : Document.Plain 1 s.toDocument := by
  refine .object fun x hx => ?_
  obtain ⟨n, -, hn⟩ := List.mem_map.mp (List.of_mem_zip hx).2
  rw [← hn]
  exact .word n

end Statistics

namespace Config

/-! ## Fields -/

/-- A field of a configuration. -/
inductive Field where
  | name
  | maxEntries
  | maxVolume
  | defaultTimeoutMs
  | policy
  | sweepIntervalMs
  deriving DecidableEq

namespace Field

/-- The fields in their order. -/
def all : List Field := [name, maxEntries, maxVolume, defaultTimeoutMs, policy, sweepIntervalMs]

/-- The name of the field in documents. -/
def key : Field → String
  | name => "name"
  | maxEntries => "max_entries"
  | maxVolume => "max_volume"
  | defaultTimeoutMs => "default_timeout_ms"
  | policy => "policy"
  | sweepIntervalMs => "sweep_interval_ms"

/-- The document is one for the value of the field. -/
def Decodes (F : Format) (d : Document) (c : Config) : Field → Prop
  | name => F.text? d = some c.name
  | maxEntries => F.optionalWord? d = some c.maxEntries
  | maxVolume => F.optionalWord? d = some c.maxVolume
  | defaultTimeoutMs => F.optionalWord? d = some c.defaultTimeoutMs
  | policy => PolicyChoice.ofDocument? F d = some c.policy
  | sweepIntervalMs => F.optionalWord? d = some c.sweepIntervalMs

/-- The document that is written for the value of the field. -/
def document (c : Config) : Field → Document
  | name => .string c.name
  | maxEntries => .ofOptionalWord c.maxEntries
  | maxVolume => .ofOptionalWord c.maxVolume
  | defaultTimeoutMs => .ofOptionalWord c.defaultTimeoutMs
  | policy => c.policy.toDocument
  | sweepIntervalMs => .ofOptionalWord c.sweepIntervalMs

theorem mem_all (f : Field) : f ∈ all := by
  cases f <;> decide

theorem nodup_all : all.Nodup := by
  decide

theorem map_key_all : all.map key = fieldNames := rfl

theorem key_mem (f : Field) : f.key ∈ fieldNames := by
  rw [← map_key_all]
  exact List.mem_map.mpr ⟨f, f.mem_all, rfl⟩

theorem key_inj {f g : Field} (h : f.key = g.key) : f = g :=
  List.inj_on_of_nodup_map (l := all) (by decide) f.mem_all g.mem_all h

theorem decodes_document (hF : F.Lawful) (c : Config) (f : Field) :
    f.Decodes F (f.document c) c := by
  cases f with
  | name => exact hF.text_string _
  | policy => exact c.policy.ofDocument?_toDocument hF
  | maxEntries | maxVolume | defaultTimeoutMs | sweepIntervalMs =>
      exact hF.optionalWord_ofOptionalWord _

theorem plain_document (c : Config) (f : Field) : Document.Plain 2 (f.document c) := by
  cases f with
  | name => exact .string _
  | policy => exact c.policy.plain_toDocument
  | maxEntries | maxVolume | defaultTimeoutMs | sweepIntervalMs =>
      exact Document.plain_ofOptionalWord _

end Field

/-- The default configuration with the given fields as they are in this one. -/
def replacing (c : Config) (given : Field → Bool) : Config :=
  let default : Config := {}
  { name := if given .name then c.name else default.name
    maxEntries := if given .maxEntries then c.maxEntries else default.maxEntries
    maxVolume := if given .maxVolume then c.maxVolume else default.maxVolume
    defaultTimeoutMs :=
      if given .defaultTimeoutMs then c.defaultTimeoutMs else default.defaultTimeoutMs
    policy := if given .policy then c.policy else default.policy
    sweepIntervalMs :=
      if given .sweepIntervalMs then c.sweepIntervalMs else default.sweepIntervalMs }

/-! ## Decoding -/

variable {c : Config} {given : Field → Bool} {docs : Field → Document} {d : Document}
  {fields : List (String × Document)}

theorem fieldOr_eq {α : Type} {decode : Document → Option α} {value default : α} {given : Bool}
    (hdecode : given = true → decode d = some value) :
    Format.fieldOr decode default (if given then some d else none) =
      some (if given then value else default) := by
  cases given with
  | true => exact hdecode rfl
  | false => rfl

/-- What counts is what the record is given for its fields. -/
theorem ofDocument?_of_record (hdocs : ∀ f, given f = true → f.Decodes F (docs f) c)
    (hrecord : F.record? true fieldNames d =
      some (Field.all.map fun f => if given f then some (docs f) else none)) :
    ofDocument? F d = some (c.replacing given) := by
  have hname : Format.fieldOr F.text? "cachet" _ = _ := fieldOr_eq (hdocs .name)
  have hmaxEntries : Format.fieldOr F.optionalWord? none _ = _ := fieldOr_eq (hdocs .maxEntries)
  have hmaxVolume : Format.fieldOr F.optionalWord? none _ = _ := fieldOr_eq (hdocs .maxVolume)
  have htimeout : Format.fieldOr F.optionalWord? none _ = _ := fieldOr_eq (hdocs .defaultTimeoutMs)
  have hpolicy : Format.fieldOr (PolicyChoice.ofDocument? F) .lru _ = _ :=
    fieldOr_eq (hdocs .policy)
  have hsweep : Format.fieldOr F.optionalWord? none _ = _ := fieldOr_eq (hdocs .sweepIntervalMs)
  simp only [ofDocument?, hrecord, Field.all, List.map_cons, List.map_nil, Option.bind_eq_bind,
    Option.bind_some, hname, hmaxEntries, hmaxVolume, htimeout, hpolicy, hsweep]
  rfl

section Object

variable {unknown : List (String × Document)} (hunknown : ∀ x ∈ unknown, x.1 ∉ fieldNames)
  (horder : fields.Perm ((Field.all.filter given).map (fun f => (f.key, docs f)) ++ unknown))

include hunknown horder

theorem mem_fields_iff (f : Field) (d : Document) :
    (f.key, d) ∈ fields ↔ given f = true ∧ d = docs f := by
  rw [horder.mem_iff, List.mem_append]
  constructor
  · rintro (hgiven | hother)
    · obtain ⟨g, hg, heq⟩ := List.mem_map.mp hgiven
      obtain rfl := Field.key_inj (congrArg Prod.fst heq)
      exact ⟨(List.mem_filter.mp hg).2, (congrArg Prod.snd heq).symm⟩
    · exact absurd f.key_mem (hunknown _ hother)
  · rintro ⟨hf, rfl⟩
    exact .inl (List.mem_map.mpr ⟨f, List.mem_filter.mpr ⟨f.mem_all, hf⟩, rfl⟩)

/-- Only fields that mean nothing may be written twice. -/
theorem nodup_known : ((fields.map Prod.fst).filter (· ∈ fieldNames)).Nodup := by
  have hkeys : ((Field.all.filter given).map (fun f => (f.key, docs f))).map Prod.fst =
      (Field.all.filter given).map Field.key := List.map_map
  have hknown : ((Field.all.filter given).map Field.key).filter (· ∈ fieldNames) =
      (Field.all.filter given).map Field.key := by
    refine List.filter_eq_self.mpr fun name hname => ?_
    obtain ⟨f, -, rfl⟩ := List.mem_map.mp hname
    exact decide_eq_true f.key_mem
  have hother : (unknown.map Prod.fst).filter (· ∈ fieldNames) = [] := by
    simpa using hunknown
  have hperm := (horder.map Prod.fst).filter (· ∈ fieldNames)
  rw [List.map_append, hkeys, List.filter_append, hknown, hother, List.append_nil] at hperm
  rw [hperm.nodup_iff]
  exact (Field.nodup_all.filter _).map fun _ _ => Field.key_inj

/-- An object with each given field once, in any order and among fields with other names. -/
theorem record_object (hF : F.Lawful) :
    F.record? true fieldNames (.object fields) =
      some (Field.all.map fun f => if given f then some (docs f) else none) := by
  have hmem := mem_fields_iff hunknown horder
  rw [hF.record_object (nodup_known hunknown horder), ← Field.map_key_all, List.map_map]
  refine congrArg some (List.map_congr_left fun f _ => ?_)
  cases hf : given f with
  | true =>
      exact Document.lookup_eq_some ((hmem f _).mpr ⟨hf, rfl⟩) fun d hd => ((hmem f d).mp hd).2
  | false =>
      refine Document.lookup_eq_none fun d hd => ?_
      rw [((hmem f d).mp hd).1] at hf
      exact Bool.noConfusion hf

end Object

/-- An array with the first fields. -/
theorem record_array (hF : F.Lawful) (docs : Field → Document) (j : Nat) :
    F.record? true fieldNames (.array ((Field.all.take j).map docs)) =
      some (Field.all.map fun f => if f ∈ Field.all.take j then some (docs f) else none) := by
  have hlength : ((Field.all.take j).map docs).length ≤ fieldNames.length := by
    rw [List.length_map, ← Field.map_key_all, List.length_map]
    exact List.length_take_le' j Field.all
  have hsplit : Field.all = Field.all.take j ++ Field.all.drop j :=
    (List.take_append_drop j Field.all).symm
  have hdisjoint : (Field.all.take j).Disjoint (Field.all.drop j) := by
    have hnodup := Field.nodup_all
    rw [hsplit] at hnodup
    exact List.disjoint_of_nodup_append hnodup
  have htaken :
      (Field.all.take j).map (fun f => if f ∈ Field.all.take j then some (docs f) else none) =
        ((Field.all.take j).map docs).map some := by
    rw [List.map_map]
    exact List.map_congr_left fun f hf => if_pos hf
  have hdropped : (Field.all.drop j).map
      (fun f => if f ∈ Field.all.take j then some (docs f) else none) =
      List.replicate (Field.all.drop j).length none := by
    rw [List.map_congr_left fun f hf => if_neg fun htake => hdisjoint htake hf, List.map_const']
  have hrest : fieldNames.length - ((Field.all.take j).map docs).length =
      (Field.all.drop j).length := by
    rw [← Field.map_key_all, List.length_map, List.length_map, List.length_take, List.length_drop]
    omega
  rw [hF.record_array (.inr ⟨rfl, hlength⟩), hrest, ← htaken, ← hdropped, ← List.map_append,
    ← hsplit]

theorem filter_take (j : Nat) :
    (Field.all.filter fun f => decide (f ∈ Field.all.take j)).Perm (Field.all.take j) := by
  refine (List.perm_ext_iff_of_nodup (Field.nodup_all.filter _)
    (Field.nodup_all.sublist (List.take_sublist j _))).mpr fun f => ?_
  simp [Field.mem_all]

theorem ofDocument?_toDocument (hF : F.Lawful) (c : Config) :
    ofDocument? F c.toDocument = some c := by
  have hdecodes : ∀ f, true = true → Field.Decodes F (f.document c) c f :=
    fun f _ => f.decodes_document hF c
  exact ofDocument?_of_record hdecodes
    (record_object (fun x hx => absurd hx List.not_mem_nil) (.refl _) hF)

theorem plain_toDocument (c : Config) : Document.Plain 3 c.toDocument := by
  have hfields : ∀ x ∈ Field.all.map fun f => (f.key, f.document c), Document.Plain 2 x.2 := by
    intro x hx
    obtain ⟨f, -, rfl⟩ := List.mem_map.mp hx
    exact f.plain_document c
  exact .object hfields

/-- In every lawful format, configurations, policies and counters are read back from their texts;
and a text that gives some fields of a configuration, as an object or as an array, is read as the
default configuration with these fields replaced. -/
theorem decode_exact (F : Format) (hF : F.Lawful) :
    (∀ c : Config, F.decode? (ofDocument? F) (F.write c.toDocument) = some c) ∧
    (∀ p : PolicyChoice,
      F.decode? (PolicyChoice.ofDocument? F) (F.write p.toDocument) = some p) ∧
    (∀ s : Statistics,
      F.decode? (Statistics.ofDocument? F) (F.write s.toDocument) = some s) ∧
    (∀ (c : Config) (given : Field → Bool) (docs : Field → Document)
      (unknown fields : List (String × Document)) (text : String),
      (∀ f, given f = true → f.Decodes F (docs f) c) → (∀ x ∈ unknown, x.1 ∉ fieldNames) →
      fields.Perm ((Field.all.filter given).map (fun f => (f.key, docs f)) ++ unknown) →
      F.read text = some (.object fields) →
      F.decode? (ofDocument? F) text = some (c.replacing given)) ∧
    (∀ (c : Config) (docs : Field → Document) (j : Nat) (arrayText objectText : String),
      (∀ f ∈ Field.all.take j, f.Decodes F (docs f) c) →
      F.read arrayText = some (.array ((Field.all.take j).map docs)) →
      F.read objectText = some (.object ((Field.all.take j).map fun f => (f.key, docs f))) →
      F.decode? (ofDocument? F) arrayText = F.decode? (ofDocument? F) objectText ∧
      F.decode? (ofDocument? F) arrayText =
        some (c.replacing fun f => f ∈ Field.all.take j)) := by
  refine ⟨fun c => ?_, fun p => ?_, fun s => ?_, ?_, ?_⟩
  · rw [hF.decode?_write (c.plain_toDocument.mono (by decide)), c.ofDocument?_toDocument hF]
  · rw [hF.decode?_write (p.plain_toDocument.mono (by decide)), p.ofDocument?_toDocument hF]
  · rw [hF.decode?_write (s.plain_toDocument.mono (by decide)), s.ofDocument?_toDocument hF]
  · intro c given docs unknown fields text hdocs hunknown horder htext
    rw [Format.decode?, htext]
    exact ofDocument?_of_record hdocs (record_object hunknown horder hF)
  · intro c docs j arrayText objectText hdocs harray hobject
    have hgiven : ∀ f, decide (f ∈ Field.all.take j) = true → f.Decodes F (docs f) c :=
      fun f hf => hdocs f (of_decide_eq_true hf)
    have horder : ((Field.all.take j).map fun f => (f.key, docs f)).Perm
        ((Field.all.filter fun f => decide (f ∈ Field.all.take j)).map
          (fun f => (f.key, docs f)) ++ []) := by
      rw [List.append_nil]
      exact ((filter_take j).map _).symm
    have hofArray : ofDocument? F (.array ((Field.all.take j).map docs)) = _ :=
      ofDocument?_of_record hgiven (by simpa using record_array hF docs j)
    have hofObject :
        ofDocument? F (.object ((Field.all.take j).map fun f => (f.key, docs f))) = _ :=
      ofDocument?_of_record hgiven
        (record_object (fun x hx => absurd hx List.not_mem_nil) horder hF)
    rw [Format.decode?, Format.decode?, harray, hobject, Option.bind_some, Option.bind_some,
      hofArray, hofObject]
    exact ⟨rfl, rfl⟩

/-- The theorem in the format that runs, at an object that gives two fields and one that means
nothing, and at the first two fields. -/
theorem decode_exact_two_fields :
    let F := Format.standard
    let users : Document := .string "users"
    let lfu : Document := .object [("lfu", .object [])]
    F.Lawful ∧
    F.decode? (ofDocument? F)
        (F.write (.object [("max_entries", .ofWord 10), ("owner", .null), ("policy", lfu)])) =
      some { maxEntries := some 10, policy := .lfu } ∧
    F.decode? (ofDocument? F) (F.write (.array [users, .ofWord 10])) =
      some { name := "users", maxEntries := some 10 } := by
  intro F users lfu
  have hF : F.Lawful := Format.standard_lawful
  have hlfu : lfu.Plain 2 := PolicyChoice.lfu.plain_toDocument
  let c : Config := { name := "users", maxEntries := some 10, policy := .lfu }
  have hdocs : ∀ f : Field, f.Decodes F (f.document c) c := Field.decodes_document hF c
  obtain ⟨-, -, -, hobject, harray⟩ := decode_exact F hF
  refine ⟨hF, ?_, ?_⟩
  · have hplain : ∀ x ∈ [("max_entries", .ofWord 10), ("owner", .null), ("policy", lfu)],
        Document.Plain 2 x.2 := by
      simpa using ⟨.word _, .null, hlfu⟩
    refine hobject c (fun f => f = .maxEntries || f = .policy) (fun f => f.document c)
      [("owner", .null)] _ _ (fun f _ => hdocs f) (by decide) ?_
      (hF.read_write ((Document.Plain.object hplain).mono (by decide)))
    exact .cons _ (.swap _ _ _)
  · have hitems : ∀ d ∈ [users, .ofWord 10], d.Plain 0 := by
      simpa using ⟨.string _, .word _⟩
    have hfields : ∀ x ∈ [("name", users), ("max_entries", .ofWord 10)], x.2.Plain 0 := by
      simpa using ⟨.string _, .word _⟩
    exact (harray c (fun f => f.document c) 2 _ _ (fun f _ => hdocs f)
      (hF.read_write ((Document.Plain.array hitems).mono (by decide)))
      (hF.read_write ((Document.Plain.object hfields).mono (by decide)))).2

end Config

end BoundedCache
