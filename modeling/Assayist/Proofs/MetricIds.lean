import Assayist.Lib.Keyed
import Assayist.Proofs.Labels
import Assayist.Proofs.Tokens

/-! Metric ids against what they stand for. The id of a series' metric joins the name, the
key and the labels by bars and escapes none of them, so that it says no more than the words
between the bars. -/

namespace Assayist

open Pieces

variable {F : Type}

def labelsOf (s : Json F) : List (String × Json F) := ((s.get "labels").bind Json.asObject).getD []

/-- What a series is told apart by, as text, with its labels in key order. -/
@[ext]
structure Texts where
  name : List Char
  key : Option (List Char)
  labels : List (List Char × List Char)
  deriving DecidableEq, Repr

namespace Texts

variable {t u : Texts}

/-- What follows the name, between bars. -/
def parts (t : Texts) : List (List Char) :=
  t.key.toList ++ t.labels.map fun p => p.1 ++ '=' :: p.2

def words (t : Texts) : List (List Char) := (t.name :: t.parts).flatMap (List.splitOn '|')

def layout (t : Texts) : ℕ × Option ℕ × List (ℕ × ℕ) :=
  (t.name.length, t.key.map List.length, t.labels.map fun p => (p.1.length, p.2.length))

theorem labels_inj {l m : List (List Char × List Char)}
    (hlen : l.map (fun p => (p.1.length, p.2.length)) = m.map fun p => (p.1.length, p.2.length))
    (h : (l.map fun p => p.1 ++ '=' :: p.2).flatMap ('|' :: ·) =
      (m.map fun p => p.1 ++ '=' :: p.2).flatMap ('|' :: ·)) : l = m := by
  induction l generalizing m with
  | nil => exact (List.map_eq_nil_iff.1 hlen.symm).symm
  | cons p l ih =>
    cases m with
    | nil => exact absurd hlen (by simp)
    | cons q m =>
      obtain ⟨hpq, hrest⟩ := List.cons.inj hlen
      obtain ⟨hkey, hvalue⟩ := Prod.mk.inj hpq
      simp only [List.map_cons, List.flatMap_cons, List.cons_append, List.cons.injEq, true_and,
        List.append_assoc] at h
      obtain ⟨hk, h⟩ := List.append_inj h hkey
      obtain ⟨hv, h⟩ := List.append_inj (List.cons.inj h).2 hvalue
      rw [ih hrest h, Prod.ext hk hv]

theorem key_inj {k l : Option (List Char)} {rest rest' : List Char}
    (hlen : k.map List.length = l.map List.length)
    (h : k.toList.flatMap ('|' :: ·) ++ rest = l.toList.flatMap ('|' :: ·) ++ rest') :
    k = l ∧ rest = rest' := by
  cases k with
  | none =>
    rw [Option.map_eq_none_iff.1 hlen.symm] at h ⊢
    exact ⟨rfl, h⟩
  | some k =>
    obtain ⟨l, rfl, hl⟩ := Option.map_eq_some_iff.1 hlen.symm
    simp only [Option.toList_some, List.flatMap_singleton, List.cons_append, List.cons.injEq,
      true_and] at h
    obtain ⟨hk, hrest⟩ := List.append_inj h hl.symm
    exact ⟨congrArg some hk, hrest⟩

/-- The words leave open where the texts end, and nothing else. -/
theorem eq_of_words (hwords : t.words = u.words) (hlayout : t.layout = u.layout) : t = u := by
  obtain ⟨hname, hrest⟩ := Prod.mk.inj hlayout
  obtain ⟨hkey, hlabels⟩ := Prod.mk.inj hrest
  have hjoined := joined_eq_iff.2 hwords
  unfold joined at hjoined
  obtain ⟨hn, h⟩ := List.append_inj hjoined hname
  unfold parts at h
  rw [List.flatMap_append, List.flatMap_append] at h
  obtain ⟨hk, hl⟩ := key_inj hkey h
  cases t
  cases u
  simp only [Texts.mk.injEq]
  exact ⟨hn, hk, labels_inj hlabels hl⟩

theorem labelTexts_inj {l m : List (List Char × List Char)} (hl : ∀ p ∈ l, '=' ∉ p.1)
    (hm : ∀ p ∈ m, '=' ∉ p.1)
    (h : (l.map fun p => p.1 ++ '=' :: p.2) = m.map fun p => p.1 ++ '=' :: p.2) : l = m := by
  induction l generalizing m with
  | nil => exact (List.map_eq_nil_iff.1 h.symm).symm
  | cons p l ih =>
    cases m with
    | nil => exact absurd h (by simp)
    | cons q m =>
      obtain ⟨hpq, hrest⟩ := List.cons.inj h
      obtain ⟨hp, hl⟩ := List.forall_mem_cons.1 hl
      obtain ⟨hq, hm⟩ := List.forall_mem_cons.1 hm
      obtain ⟨hkey, hvalue⟩ := sep_first_inj hp hq hpq
      rw [ih hl hm hrest, Prod.ext hkey hvalue]

/-- Without equals signs in keys a key is no label, and a label ends its own key. -/
theorem parts_inj (hk : ∀ k ∈ t.key, '=' ∉ k) (hk' : ∀ k ∈ u.key, '=' ∉ k)
    (hl : ∀ p ∈ t.labels, '=' ∉ p.1) (hl' : ∀ p ∈ u.labels, '=' ∉ p.1)
    (h : t.parts = u.parts) : t.key = u.key ∧ t.labels = u.labels := by
  have hsign (v : Texts) : ∀ part ∈ v.labels.map (fun p => p.1 ++ '=' :: p.2), '=' ∈ part := by
    intro part hpart
    obtain ⟨p, -, rfl⟩ := List.mem_map.1 hpart
    simp
  unfold parts at h
  cases ht : t.key with
  | none =>
    rw [ht, Option.toList_none, List.nil_append] at h
    cases hu : u.key with
    | none =>
      rw [hu] at h
      exact ⟨rfl, labelTexts_inj hl hl' h⟩
    | some k =>
      rw [hu] at h
      exact absurd (hsign t k (by rw [h]; simp)) (hk' k hu)
  | some k =>
    rw [ht] at h
    cases hu : u.key with
    | none =>
      rw [hu, Option.toList_none, List.nil_append] at h
      exact absurd (hsign u k (by rw [← h]; simp)) (hk k ht)
    | some k' =>
      rw [hu] at h
      obtain ⟨hkey, hlabels⟩ := List.cons.inj h
      exact ⟨congrArg some hkey, labelTexts_inj hl hl' hlabels⟩

end Texts

section Base

variable [FloatText F]

def textsOf (s : Json F) : Texts where
  name := ((s.getStr "name").getD "").toList
  key := (s.getStr "key").map String.toList
  labels := (labelPairs (labelsOf s)).map fun p => (p.1.toList, p.2.toList)

theorem labelsSuffix_toList (s : Json F) : (labelsSuffix (s.get "labels")).toList =
    ((textsOf s).labels.map fun p => p.1 ++ '=' :: p.2).flatMap ('|' :: ·) := by
  unfold textsOf labelsOf labelsSuffix
  cases (s.get "labels").bind Json.asObject with
  | none => simp [labelPairs]
  | some labels =>
    dsimp only
    rw [foldl_append_toList, List.map_map, List.flatMap_map]
    simp only [String.toList_empty, List.nil_append, Option.getD_some]
    congr 1
    funext p
    simp

/-- The base of a series' ids: its texts, joined by bars. -/
theorem seriesBase_toList (s : Json F) :
    (seriesBase s).toList = joined '|' (textsOf s).name (textsOf s).parts := by
  have hlabels := labelsSuffix_toList s
  unfold seriesBase seriesHead Texts.parts joined
  rw [String.toList_append, hlabels, List.flatMap_append, ← List.append_assoc]
  congr 1
  cases hkey : s.getStr "key" with
  | none => simp [textsOf, hkey]
  | some k => simp [textsOf, hkey]

theorem seriesBase_eq_iff (s s' : Json F) :
    seriesBase s = seriesBase s' ↔ (textsOf s).words = (textsOf s').words := by
  rw [← String.toList_inj, seriesBase_toList, seriesBase_toList, joined_eq_iff]
  rfl

/-- The order labels are written in is no part of the texts. -/
theorem labelPairs_eq {l l' : List (String × Json F)} (h : (l.map Prod.fst).Nodup)
    (h' : (l'.map Prod.fst).Nodup) (hlookup : ∀ k, l.lookup k = l'.lookup k) :
    labelPairs l = labelPairs l' := by
  have hperm := Keyed.perm_of_lookup h h' hlookup
  have hkeys : ((l.map fun e => (e.1, scalarToString e.2)).map Prod.fst).Nodup := by
    rwa [List.map_map]
  refine Keyed.mergeSort_eq_of_perm (fun a b => decide (a ≤ b)) ?_ ?_ ?_ hkeys
    (hperm.map _)
  · intro a b c hab hbc
    simp only [decide_eq_true_eq] at hab hbc ⊢
    exact String.le_trans hab hbc
  · intro a b
    simp only [Bool.or_eq_true, decide_eq_true_eq]
    exact String.le_total a b
  · intro a b hab hba
    simp only [decide_eq_true_eq] at hab hba
    exact String.le_antisymm hab hba

end Base

section Fields

def commonField (kind : String) : String := if kind = "histogram" then "mean" else "value"

theorem commonField_mem [F64 F] {win : Option F} {s : Json F} (h : seriesFields win s ≠ []) :
    commonField ((s.getStr "kind").getD "") ∈ seriesFields win s := by
  unfold seriesFields at h ⊢
  unfold commonField
  generalize (s.getStr "kind").getD "" = kind at h ⊢
  dsimp only at h ⊢
  split_ifs at h ⊢
  · exact absurd rfl h
  · exact absurd rfl h
  · simp
  · simp
  · simp
  · simp
  · exact absurd rfl h

theorem bar_notMem_field {field : String} (h : field ∈ ["mean", "p50", "p99", "value", "rate"]) :
    '|' ∉ field.toList := by
  revert field
  decide

end Fields

structure Measured (F : Type) [F64 F] [FloatText F] [Build] (kind : String) where
  run : Json F
  series : Json F
  name : String
  metrics : List (Metric F)
  named : series.getStr "name" = some name
  kinded : series.getStr "kind" = some kind
  unique : ((labelsOf series).map Prod.fst).Nodup
  reduced : metricsOf run series = .ok metrics
  graded : metrics ≠ []

namespace Measured

variable [F64 F] [FloatText F] [Build] {kind : String} (a b : Measured F kind)

def key : Option String := a.series.getStr "key"

def labels : List (String × Json F) := labelsOf a.series

def texts : Texts := textsOf a.series

/-- Some metric of the one is taken for one of the other. -/
def Joins : Prop := ∃ m ∈ a.metrics, ∃ n ∈ b.metrics, m.id = n.id

/-- The same name, key and labels, whatever order these are written in. -/
structure SameData : Prop where
  name : a.name = b.name
  key : a.key = b.key
  labels : ∀ k, a.labels.lookup k = b.labels.lookup k

/-- Two series join where they are the same, and only there. -/
def ToldApart : Prop := a.Joins b ↔ a.SameData b

/-- The same words, of texts that end elsewhere: a bar stands within a text of the one where
a text of the other ends, or an equals sign does. -/
def Recut : Prop := a.texts.words = b.texts.words ∧ a.texts.layout ≠ b.texts.layout

/-- The same texts, of labels that have other values. -/
def Retyped : Prop := a.texts = b.texts ∧ ∃ k, a.labels.lookup k ≠ b.labels.lookup k

structure Plain : Prop where
  name : '|' ∉ a.name.toList
  key : a.key = none
  labels : a.labels = []

section Joining

theorem common_id : seriesBase a.series ++ "|" ++ commonField kind ∈ a.metrics.map (·.id) := by
  have hfields := a.graded
  rw [Ne, ← List.map_eq_nil_iff (f := Metric.id), seriesMetrics_ids a.reduced,
    List.map_eq_nil_iff] at hfields
  have hmem := commonField_mem hfields
  rw [a.kinded, Option.getD_some] at hmem
  rw [seriesMetrics_ids a.reduced]
  exact List.mem_map_of_mem hmem

theorem joins_iff_base : a.Joins b ↔ seriesBase a.series = seriesBase b.series := by
  apply Iff.intro
  · intro h
    obtain ⟨m, hm, n, hn, hid⟩ := h
    obtain ⟨field, hfield, x, rfl⟩ := seriesMetrics_mem a.reduced hm
    obtain ⟨field', hfield', y, rfl⟩ := seriesMetrics_mem b.reduced hn
    have hlist := congrArg String.toList hid
    simp only [SeriesHead.metric_id, seriesHead_base, String.toList_append, List.append_assoc]
      at hlist
    exact String.toList_injective (sep_last_inj (bar_notMem_field (mem_seriesFields hfield))
      (bar_notMem_field (mem_seriesFields hfield')) hlist).1
  · intro h
    obtain ⟨m, hm, hma⟩ := List.mem_map.1 a.common_id
    obtain ⟨n, hn, hnb⟩ := List.mem_map.1 b.common_id
    exact ⟨m, hm, n, hn, by rw [hma, hnb, h]⟩

end Joining

section Pair

variable {a b : Measured F kind}

theorem texts_name (a : Measured F kind) : a.texts.name = a.name.toList := by
  rw [texts, textsOf, a.named, Option.getD_some]

theorem SameData.texts_eq (h : a.SameData b) : a.texts = b.texts := by
  have hkey : a.series.getStr "key" = b.series.getStr "key" := h.key
  have hlabels := labelPairs_eq a.unique b.unique h.labels
  unfold texts textsOf
  rw [a.named, b.named, h.name, hkey, hlabels]

/-- Series of the same texts have the same data, but for the values of their labels. -/
theorem sameData_of_texts (h : a.texts = b.texts)
    (hlabels : ∀ k, a.labels.lookup k = b.labels.lookup k) : a.SameData b where
  name := by
    have hname := congrArg Texts.name h
    rwa [texts_name, texts_name, String.toList_inj] at hname
  key := by
    have hkey := congrArg Texts.key h
    exact Option.map_injective (fun _ _ heq => String.toList_injective heq) hkey
  labels := hlabels

theorem SameData.joins (h : a.SameData b) : a.Joins b := by
  rw [joins_iff_base, seriesBase_eq_iff]
  exact congrArg Texts.words h.texts_eq

/-- Two series are told apart exactly when neither are their texts cut out of the same words
in two ways, nor are two values of a label written alike. -/
theorem toldApart_iff : a.ToldApart b ↔ ¬a.Recut b ∧ ¬a.Retyped b := by
  unfold ToldApart
  apply Iff.intro
  · intro h
    refine ⟨fun hcut => ?_, fun htype => ?_⟩
    · have hjoins : a.Joins b := (joins_iff_base a b).2 ((seriesBase_eq_iff _ _).2 hcut.1)
      exact hcut.2 (congrArg Texts.layout (h.1 hjoins).texts_eq)
    · obtain ⟨htexts, k, hk⟩ := htype
      have hjoins : a.Joins b :=
        (joins_iff_base a b).2 ((seriesBase_eq_iff _ _).2 (congrArg Texts.words htexts))
      exact hk ((h.1 hjoins).labels k)
  · intro h
    obtain ⟨hcut, htype⟩ := h
    refine ⟨fun hjoins => ?_, SameData.joins⟩
    have hwords : a.texts.words = b.texts.words :=
      (seriesBase_eq_iff _ _).1 ((joins_iff_base a b).1 hjoins)
    have htexts : a.texts = b.texts :=
      Texts.eq_of_words hwords (by_contra fun hlayout => hcut ⟨hwords, hlayout⟩)
    exact sameData_of_texts htexts fun k => by_contra fun hk => htype ⟨htexts, k, hk⟩

end Pair

section Tame

variable {a b : Measured F kind}

/-- Texts that keep clear of the two separators, and labels that are all strings. -/
structure Tame (a : Measured F kind) : Prop where
  name : '|' ∉ a.name.toList
  key : ∀ k ∈ a.key, '|' ∉ k.toList ∧ '=' ∉ k.toList
  labels : ∀ e ∈ a.labels, '|' ∉ e.1.toList ∧ '=' ∉ e.1.toList ∧
    ∃ v, e.2 = .string v ∧ '|' ∉ v.toList

theorem mem_labelTexts {p : List Char × List Char} (h : p ∈ a.texts.labels) :
    ∃ e ∈ a.labels, p = (e.1.toList, (scalarToString e.2).toList) := by
  obtain ⟨q, hq, rfl⟩ := List.mem_map.1 h
  obtain ⟨e, he, rfl⟩ := List.mem_map.1 (List.mem_mergeSort.1 hq)
  exact ⟨e, he, rfl⟩

namespace Tame

theorem label (h : a.Tame) {p : List Char × List Char} (hp : p ∈ a.texts.labels) :
    '|' ∉ p.1 ∧ '=' ∉ p.1 ∧ '|' ∉ p.2 := by
  obtain ⟨e, he, rfl⟩ := mem_labelTexts hp
  obtain ⟨hbar, heq, v, hv, hvalue⟩ := h.labels e he
  rw [hv]
  exact ⟨hbar, heq, hvalue⟩

theorem keyText (h : a.Tame) {k : List Char} (hk : k ∈ a.texts.key) : '|' ∉ k ∧ '=' ∉ k := by
  obtain ⟨t, ht, rfl⟩ := Option.map_eq_some_iff.1 hk
  exact h.key t ht

theorem parts_plain (h : a.Tame) : ∀ part ∈ a.texts.name :: a.texts.parts, '|' ∉ part := by
  intro part hpart
  rw [List.mem_cons, Texts.parts, List.mem_append, Option.mem_toList] at hpart
  rcases hpart with hname | hkey | hlabel
  · rw [hname, texts_name]
    exact h.name
  · exact (h.keyText hkey).1
  · obtain ⟨p, hp, rfl⟩ := List.mem_map.1 hlabel
    obtain ⟨hk, -, hv⟩ := h.label hp
    simp [hk, hv]

/-- The parts of tame series are those of their texts. -/
theorem texts_eq (ha : a.Tame) (hb : b.Tame) (h : a.texts.words = b.texts.words) :
    a.texts = b.texts := by
  unfold Texts.words at h
  rw [words_of_plain ha.parts_plain, words_of_plain hb.parts_plain] at h
  obtain ⟨hname, hparts⟩ := List.cons.inj h
  obtain ⟨hkey, hlabels⟩ := Texts.parts_inj (fun k hk => (ha.keyText hk).2)
    (fun k hk => (hb.keyText hk).2) (fun p hp => (ha.label hp).2.1)
    (fun p hp => (hb.label hp).2.1) hparts
  exact Texts.ext hname hkey hlabels

/-- Labels that are strings can be read off their texts. -/
theorem labels_perm (ha : a.Tame) (hb : b.Tame) (h : a.texts = b.texts) :
    a.labels.Perm b.labels := by
  have hpairs : labelPairs a.labels = labelPairs b.labels := by
    have hlabels := congrArg Texts.labels h
    refine List.map_injective_iff.2 (fun p q hpq => ?_) hlabels
    obtain ⟨hk, hv⟩ := Prod.mk.inj hpq
    exact Prod.ext (String.toList_injective hk) (String.toList_injective hv)
  have hread (c : Measured F kind) (hc : c.Tame) :
      ((labelPairs c.labels).map fun p => (p.1, Json.string p.2)).Perm c.labels := by
    refine ((List.mergeSort_perm _ _).map _).trans ?_
    rw [List.map_map]
    refine List.Perm.of_eq ?_
    conv_rhs => rw [← List.map_id c.labels]
    refine List.map_congr_left fun e he => ?_
    obtain ⟨-, -, v, hv, -⟩ := hc.labels e he
    exact Prod.ext rfl (by simp [hv, scalarToString])
  exact (hread a ha).symm.trans (hpairs ▸ hread b hb)

end Tame

theorem tame_toldApart (ha : a.Tame) (hb : b.Tame) : a.ToldApart b := by
  rw [toldApart_iff]
  refine ⟨fun hcut => ?_, fun htype => ?_⟩
  · exact hcut.2 (congrArg Texts.layout (ha.texts_eq hb hcut.1))
  · obtain ⟨htexts, k, hk⟩ := htype
    exact hk (Keyed.lookup_of_perm a.unique (ha.labels_perm hb htexts) k)

end Tame

section Alone

variable {a b : Measured F kind}

theorem kind_graded (a : Measured F kind) : kind ∈ gradedKinds := by
  have hyields : yields a.series ≠ false := fun h =>
    a.graded ((seriesMetrics_eq_nil a.reduced).2 h)
  unfold yields at hyields
  rw [a.kinded, Option.getD_some, Bool.ne_false_iff, Bool.and_eq_true] at hyields
  exact List.contains_iff_mem.1 hyields.2

theorem exists_unlabelled (hkind : kind ∈ gradedKinds) (name : String) (key : Option String) :
    ∃ a : Measured F kind, a.series = plainSeries name "" kind key := by
  obtain ⟨m, ms, hms⟩ := plainSeries_metrics (F := F) name "" hkind key
  have hlabels : labelsOf (plainSeries (F := F) name "" kind key) = [] := by
    cases key <;> rfl
  exact ⟨⟨.null, plainSeries name "" kind key, name, m :: ms, rfl, rfl,
    by rw [hlabels]; exact List.nodup_nil, hms, List.cons_ne_nil m ms⟩, rfl⟩

/-- A series has parts behind its name only where it has a key or a label. -/
theorem parts_eq_nil : a.texts.parts = [] ↔ a.key = none ∧ a.labels = [] := by
  have hlabels : a.texts.labels = [] ↔ a.labels = [] := by
    rw [texts, textsOf, List.map_eq_nil_iff, labelPairs, ← List.length_eq_zero_iff,
      List.length_mergeSort, List.length_map, List.length_eq_zero_iff]
    rfl
  have hkey : a.texts.key = none ↔ a.key = none := Option.map_eq_none_iff
  rw [Texts.parts, List.append_eq_nil_iff, List.map_eq_nil_iff, hlabels, ← hkey]
  cases a.texts.key <;> simp

theorem plain_toldApart (h : a.Plain) (b : Measured F kind) : a.ToldApart b := by
  refine ⟨fun hjoins => ?_, SameData.joins⟩
  have hbase := congrArg String.toList ((joins_iff_base a b).1 hjoins)
  rw [seriesBase_toList, seriesBase_toList] at hbase
  change joined '|' a.texts.name a.texts.parts = joined '|' b.texts.name b.texts.parts at hbase
  rw [parts_eq_nil.2 ⟨h.key, h.labels⟩, joined_nil, texts_name, texts_name] at hbase
  cases hparts : b.texts.parts with
  | nil =>
    obtain ⟨hkey, hlabels⟩ := parts_eq_nil.1 hparts
    rw [hparts, joined_nil, String.toList_inj] at hbase
    exact ⟨hbase, h.key.trans hkey.symm, fun k => by rw [h.labels, hlabels]⟩
  | cons q qs =>
    rw [hparts, joined_cons] at hbase
    have hbar : '|' ∈ a.name.toList := by
      rw [hbase]
      simp
    exact absurd hbar h.name

/-- A series that joins no other is a name alone: any other has its double in a series named
after its own id. -/
theorem toldApart_all_iff (a : Measured F kind) : (∀ b, a.ToldApart b) ↔ a.Plain := by
  refine ⟨fun h => ?_, plain_toldApart⟩
  obtain ⟨b, hb⟩ := exists_unlabelled (F := F) a.kind_graded (seriesBase a.series) none
  have hbase : seriesBase b.series = seriesBase a.series := by
    rw [hb, plainSeries_bare]
  have hname : b.name = seriesBase a.series := by
    have hnamed := b.named
    rw [hb] at hnamed
    exact (Option.some.inj hnamed).symm
  have hsame := (h b).1 ((joins_iff_base a b).2 hbase.symm)
  have hkey : a.key = none := by
    rw [hsame.key, key, hb]
    rfl
  have hlabels : a.labels = [] := by
    refine List.eq_nil_iff_forall_not_mem.2 fun e he => ?_
    have hentry : a.labels.lookup e.1 = some e.2 := Keyed.lookup_of_mem a.unique he
    have hnone : b.labels.lookup e.1 = none := by
      rw [labels, hb]
      rfl
    rw [hsame.labels e.1, hnone] at hentry
    cases hentry
  refine ⟨fun hbar => ?_, hkey, hlabels⟩
  obtain ⟨x, y, hxy⟩ := List.append_of_mem hbar
  obtain ⟨c, hc⟩ := exists_unlabelled (F := F) a.kind_graded (.ofList x) (some (.ofList y))
  have hcut : seriesBase c.series = seriesBase a.series := by
    rw [hc, plainSeries_keyed, ← hname, ← hsame.name, ← String.toList_inj, hxy]
    simp
  have hckey := ((h c).1 ((joins_iff_base a c).2 hcut.symm)).key
  rw [hkey, key, hc] at hckey
  cases hckey

/-- Which series are told apart: two, unless they are cut out of the same words in two ways
or have values written alike; and one from all others, only if it is a name alone. -/
theorem toldApart_exactly (a : Measured F kind) :
    (∀ b, a.ToldApart b ↔ ¬a.Recut b ∧ ¬a.Retyped b) ∧ ((∀ b, a.ToldApart b) ↔ a.Plain) :=
  ⟨fun _ => toldApart_iff, toldApart_all_iff a⟩

end Alone

end Measured

section Merged

open Measured

attribute [local instance] releaseBuild

/-- A gauge with a key, and one whose name has a bar before the same text. -/
theorem Measured.keyed_merged : ∃ a b : Measured ℚ "gauge",
    a.series = plainSeries "cpu" "" "gauge" (some "0") ∧
      b.series = plainSeries "cpu|0" "" "gauge" none ∧ ¬a.ToldApart b := by
  have hkind : "gauge" ∈ gradedKinds := by decide
  obtain ⟨a, ha⟩ := exists_unlabelled (F := ℚ) hkind "cpu" (some "0")
  obtain ⟨b, hb⟩ := exists_unlabelled (F := ℚ) hkind "cpu|0" none
  refine ⟨a, b, ha, hb, fun h => ?_⟩
  have hjoins : a.Joins b := by
    rw [joins_iff_base, ha, hb, plainSeries_keyed, plainSeries_bare]
    decide
  have hkey := (h.1 hjoins).key
  rw [Measured.key, Measured.key, ha, hb] at hkey
  cases hkey

end Merged

end Assayist
