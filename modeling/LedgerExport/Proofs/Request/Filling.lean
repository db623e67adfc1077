import LedgerExport.Proofs.Request.Placeholder
import Mathlib.Data.Char
import Mathlib.Data.List.Lex
import Mathlib.Data.List.Nodup

/-! # Values in their slots

A document in which no brace opens before the last one is closed is a row of texts and slots.
Filling in a key changes its slots and nothing else as long as no value brings a brace, so that all
keys may as well be filled in at once; `fillsAtOnce_ofList` says what follows. Values that bring
braces may make new slots, but markup they neither bring nor take away (`markup_substitute`).
-/
namespace LedgerExport.Request
open Text

/-! ## Documents as texts and slots -/

/-- Behind an opening brace the next brace is not another one. -/
def Flat (t : Text) : Prop :=
  ∀ s ∈ t.tails, s.head? = some '{' → s.tail.find? (· ∈ ['{', '}']) ≠ some '{'

instance (t : Text) : Decidable (Flat t) := by unfold Flat; infer_instance

theorem Flat.suffix {s t : Text} (h : Flat t) (hs : s <:+ t) : Flat s := by
  intro u hu
  rw [List.mem_tails] at hu
  exact h u ((List.mem_tails u t).mpr (hu.trans hs))

theorem Flat.key {k r : Text} (h : Flat ('{' :: (k ++ '}' :: r))) (hk : '}' ∉ k) : Braceless k := by
  refine ⟨fun hmem => ?_, hk⟩
  obtain ⟨a, b, rfl, ha⟩ := List.eq_append_cons_of_mem hmem
  have hhead := h _ ((List.mem_tails _ _).mpr (List.suffix_refl _)) rfl
  have hnone : ∀ c ∈ a, ¬ (decide (c ∈ ['{', '}']) = true) := by
    intro c hc
    have hopen : c ≠ '{' := fun he => ha (he ▸ hc)
    have hclose : c ≠ '}' := fun he => hk (he ▸ List.mem_append_left _ hc)
    simp [hopen, hclose]
  refine hhead ?_
  rw [List.tail_cons, List.append_assoc, List.find?_append, List.find?_eq_none.mpr hnone]
  rfl

inductive Stretch where
  | text (t : Text)
  | slot (key : Text)

namespace Stretch

def render : Stretch → Text
  | text t => t
  | slot key => placeholder key

/-- A text opens no slot, and a slot is not opened twice. -/
def Tidy : Stretch → Prop
  | text t => '{' ∉ t
  | slot key => Braceless key

def fill (f : Text → Option Text) : Stretch → Stretch
  | text t => text t
  | slot key => (f key).elim (slot key) text

end Stretch
open Stretch

def renderStretches (stretches : List Stretch) : Text := stretches.flatMap Stretch.render

@[simp] theorem renderStretches_nil : renderStretches [] = [] := rfl

@[simp] theorem renderStretches_cons (s : Stretch) (rest : List Stretch) :
    renderStretches (s :: rest) = s.render ++ renderStretches rest := List.flatMap_cons

/-- A flat document is a row of stretches; a brace that is never closed ends it. -/
theorem Flat.exists_stretches {t : Text} (h : Flat t) :
    ∃ stretches : List Stretch, ∃ e : Text,
      t = renderStretches stretches ++ e ∧ (∀ s ∈ stretches, s.Tidy) ∧ '}' ∉ e := by
  by_cases hopen : '{' ∈ t
  · obtain ⟨a, b, ht, ha⟩ := List.eq_append_cons_of_mem hopen
    have hsuffix : Flat ('{' :: b) := h.suffix ⟨a, ht.symm⟩
    by_cases hclose : '}' ∈ b
    · obtain ⟨k, r, rfl, hk⟩ := List.eq_append_cons_of_mem hclose
      have hrest : Flat r := hsuffix.suffix
        ((List.suffix_cons '}' r).trans ((List.suffix_append k _).trans (List.suffix_cons '{' _)))
      have hlen : r.length < t.length := by
        rw [ht]
        simp only [List.length_append, List.length_cons]
        omega
      obtain ⟨stretches, e, hr, htidy, he⟩ := hrest.exists_stretches
      have htidy' : ∀ s ∈ .text a :: .slot k :: stretches, s.Tidy :=
        List.forall_mem_cons.mpr ⟨ha, List.forall_mem_cons.mpr ⟨hsuffix.key hk, htidy⟩⟩
      refine ⟨.text a :: .slot k :: stretches, e, ?_, htidy', he⟩
      rw [ht, hr]
      simp [Stretch.render, placeholder]
    · refine ⟨[.text a], '{' :: b, ?_, List.forall_mem_singleton.mpr ha, by simpa using hclose⟩
      simpa [Stretch.render] using ht
  · exact ⟨[.text t], [], by simp [Stretch.render], List.forall_mem_singleton.mpr hopen,
      List.not_mem_nil⟩
termination_by t.length
decreasing_by exact hlen

section Stretches
variable {stretches : List Stretch} {e : Text} (htidy : ∀ s ∈ stretches, s.Tidy) (he : '}' ∉ e)
include htidy he

/-- The slots of a document are where its placeholders stand. -/
theorem infix_renderStretches_iff {key : Text} (hkey : Braceless key) :
    placeholder key <:+: renderStretches stretches ++ e ↔ .slot key ∈ stretches := by
  induction stretches with
  | nil =>
    have hclose : '}' ∈ placeholder key := by simp [placeholder]
    simpa using fun h : placeholder key <:+: e => he (h.subset hclose)
  | cons s rest ih =>
    obtain ⟨hs, hrest⟩ := List.forall_mem_cons.mp htidy
    rw [renderStretches_cons, List.append_assoc]
    cases s with
    | text t =>
      have ht : '{' ∉ t := hs
      have hskip : placeholder key <:+: t ++ (renderStretches rest ++ e) ↔
          placeholder key <:+: renderStretches rest ++ e := infix_append_iff_of_head ht
      rw [Stretch.render, hskip, ih hrest]
      simp
    | slot k =>
      have hk : Braceless k := hs
      -- a placeholder of `key` begins with this slot or behind it, as nothing opens in the slot
      have htail : '{' ∉ k ++ ['}'] := brace_not_mem_append hk.1 (by decide)
      have hhere : placeholder key <+: placeholder k ++ (renderStretches rest ++ e) ↔ key = k := by
        constructor
        · rintro ⟨r, hr⟩
          have hr' : key ++ '}' :: r = k ++ '}' :: (renderStretches rest ++ e) := by
            simpa [placeholder] using hr
          exact (append_cons_inj hkey.2 hk.2 hr').1
        · rintro rfl
          exact List.prefix_append _ _
      have hbehind : placeholder key <:+: k ++ ['}'] ++ (renderStretches rest ++ e) ↔
          placeholder key <:+: renderStretches rest ++ e := infix_append_iff_of_head htail
      have hsplit : placeholder key <:+: placeholder k ++ (renderStretches rest ++ e) ↔
          placeholder key <+: placeholder k ++ (renderStretches rest ++ e) ∨
            placeholder key <:+: k ++ ['}'] ++ (renderStretches rest ++ e) := List.infix_cons_iff
      rw [Stretch.render, hsplit, hhere, hbehind, ih hrest]
      simp

/-- One key is filled in where it has a slot, and nowhere else. -/
theorem replaceAll_renderStretches {key : Text} (hkey : Braceless key) (out : Text) :
    replaceAll (placeholder key) out (renderStretches stretches ++ e) =
      renderStretches (stretches.map (fill fun k => if k = key then some out else none)) ++ e := by
  induction stretches with
  | nil =>
    refine replaceAll_eq_self fun h => ?_
    exact he (h.subset (by simp [placeholder]))
  | cons s rest ih =>
    obtain ⟨hs, hrest⟩ := List.forall_mem_cons.mp htidy
    rw [List.map_cons, renderStretches_cons, renderStretches_cons, List.append_assoc,
      List.append_assoc, ← ih hrest]
    cases s with
    | text t => exact replaceAll_placeholder_append hs out _
    | slot k =>
      have hk : Braceless k := hs
      by_cases heq : k = key
      · subst heq
        simpa [Stretch.render, fill] using replaceAll_own_placeholder k out _
      · have hother := replaceAll_other_placeholder (Ne.symm heq) hkey.2 hk.1 hk.2 out
          (renderStretches rest ++ e)
        simpa [Stretch.render, fill, heq] using hother

end Stretches

theorem fill_tidy {f : Text → Option Text} (hf : ∀ k, ∀ t ∈ f k, '{' ∉ t) {s : Stretch}
    (hs : s.Tidy) : (s.fill f).Tidy := by
  cases s with
  | text t => exact hs
  | slot k =>
    cases hk : f k with
    | none => simpa [fill, hk] using hs
    | some t =>
      have ht : (Stretch.text t).Tidy := hf k t hk
      simpa [fill, hk] using ht

/-! ## All keys at once -/

def textOf (entries : List (Text × Value)) (key : Text) : Option Text :=
  (entries.find? fun e => e.1 = key).map fun e => e.2.render

def BracelessEntries (entries : List (Text × Value)) : Prop :=
  ∀ e ∈ entries, Braceless e.1 ∧ Braceless e.2.render

instance (entries : List (Text × Value)) : Decidable (BracelessEntries entries) := by
  unfold BracelessEntries; infer_instance

theorem braceless_textOf {entries : List (Text × Value)} (h : BracelessEntries entries) (k : Text) :
    ∀ t ∈ textOf entries k, Braceless t := by
  intro t ht
  obtain ⟨e, he, rfl⟩ := Option.map_eq_some_iff.mp ht
  exact (h e (List.mem_of_find?_eq_some he)).2

/-- One key after the other fills the slots in with what the first entry of each key has. -/
theorem substitute_renderStretches {entries : List (Text × Value)} (h : BracelessEntries entries)
    {stretches : List Stretch} (htidy : ∀ s ∈ stretches, s.Tidy) {e : Text} (he : '}' ∉ e) :
    substitute (renderStretches stretches ++ e) ⟨entries⟩ =
      renderStretches (stretches.map (fill (textOf entries))) ++ e := by
  induction entries generalizing stretches with
  | nil =>
    have hid : stretches.map (fill (textOf [])) = stretches := by
      refine (List.map_congr_left fun s _ => ?_).trans (List.map_id stretches)
      cases s <;> rfl
    rw [hid]
    rfl
  | cons entry rest ih =>
    obtain ⟨⟨hkey, hvalue⟩, hrest⟩ := List.forall_mem_cons.mp h
    -- the values bring no opening brace, so that what is left are texts and slots again
    have hfilled : ∀ s ∈ stretches.map
        (fill fun k => if k = entry.1 then some entry.2.render else none), s.Tidy := by
      intro s hs
      obtain ⟨u, hu, rfl⟩ := List.mem_map.mp hs
      refine fill_tidy (fun k t ht => ?_) (htidy u hu)
      obtain ⟨-, ht⟩ := Option.ite_none_right_eq_some.mp ht
      exact Option.some.inj ht ▸ hvalue.1
    have hstep := ih hrest hfilled
    rw [← replaceAll_renderStretches htidy he hkey, List.map_map] at hstep
    have hcompose : fill (textOf rest) ∘
        fill (fun k => if k = entry.1 then some entry.2.render else none) =
        fill (textOf (entry :: rest)) := by
      funext s
      cases s with
      | text t => rfl
      | slot k =>
        by_cases hk : k = entry.1
        · simp [fill, textOf, hk]
        · simp [fill, textOf, hk, Ne.symm hk]
    rw [hcompose] at hstep
    exact hstep

def slotRule (values : SubstitutionSet) : Rule
  | '{' :: cs =>
    let key := cs.takeWhile (· ≠ '}')
    match cs.drop key.length, values.get? key with
    | '}' :: _, some value => some (key.length + 1, value.render)
    | _, _ => none
  | _ => none

/-- All keys are filled in from left to right, and what has been filled in is not looked at. -/
def fillOnce (values : SubstitutionSet) : Text → Text := replaceBy (slotRule values)

theorem appliesAt_slotRule (values : SubstitutionSet) : AppliesAt '{' (slotRule values) := by
  intro c cs hc
  unfold slotRule
  split
  · next heq => exact absurd (List.cons.inj heq).1 hc
  · rfl

theorem slotRule_placeholder (values : SubstitutionSet) {key : Text} (hkey : '}' ∉ key) (x : Text) :
    slotRule values (placeholder key ++ x) =
      (values.get? key).map fun value => (key.length + 1, value.render) := by
  have htake : (key ++ '}' :: x).takeWhile (· ≠ '}') = key := by
    rw [List.takeWhile_append_of_pos]
    · simp
    · intro c hc
      have hne : c ≠ '}' := fun heq => hkey (heq ▸ hc)
      simpa using hne
  have hsplit : placeholder key ++ x = '{' :: (key ++ '}' :: x) := by simp [placeholder]
  rw [hsplit, slotRule, htake, List.drop_left]
  cases values.get? key <;> rfl

theorem slotRule_unclosed (values : SubstitutionSet) {e : Text} (he : '}' ∉ e) :
    slotRule values e = none := by
  unfold slotRule
  split
  · next cs =>
    dsimp only
    split
    · next heq _ =>
      have hmem : '}' ∈ cs := List.mem_of_mem_drop (heq ▸ List.mem_cons_self)
      exact absurd (List.mem_cons_of_mem _ hmem) he
    · rfl
  · rfl

theorem fillOnce_unclosed (values : SubstitutionSet) {e : Text} (he : '}' ∉ e) :
    fillOnce values e = e := by
  induction e with
  | nil => rfl
  | cons c cs ih =>
    rw [fillOnce, replaceBy_cons_none (slotRule_unclosed values he), ← fillOnce,
      ih (List.not_mem_of_not_mem_cons he)]

/-- Filling in all keys at once goes from one stretch to the next. -/
theorem fillOnce_renderStretches (values : SubstitutionSet) {stretches : List Stretch}
    (htidy : ∀ s ∈ stretches, s.Tidy) {e : Text} (he : '}' ∉ e) :
    fillOnce values (renderStretches stretches ++ e) =
      renderStretches (stretches.map (fill (textOf values.entries))) ++ e := by
  induction stretches with
  | nil => exact fillOnce_unclosed values he
  | cons s rest ih =>
    obtain ⟨hs, hrest⟩ := List.forall_mem_cons.mp htidy
    rw [List.map_cons, renderStretches_cons, renderStretches_cons, List.append_assoc,
      List.append_assoc, ← ih hrest]
    cases s with
    | text t => exact replaceBy_append (appliesAt_slotRule values) hs _
    | slot k =>
      have hk : Braceless k := hs
      have hrule := slotRule_placeholder values hk.2 (renderStretches rest ++ e)
      have hget : textOf values.entries k = (values.get? k).map Value.render := by
        rw [textOf, SubstitutionSet.get?, Option.map_map]
        rfl
      cases hv : values.get? k with
      | some value =>
        have hlength : (placeholder k).length - 1 = k.length + 1 := by simp [placeholder]
        rw [hv, Option.map_some, ← hlength] at hrule
        have hmatch := replaceBy_match (placeholder_ne_nil k) hrule
        simpa [fillOnce, Stretch.render, fill, hget, hv] using hmatch
      | none =>
        have htail : '{' ∉ k ++ ['}'] := brace_not_mem_append hk.1 (by decide)
        rw [hv] at hrule
        have hkeep := replaceBy_keep (appliesAt_slotRule values) hrule htail
        simpa [fillOnce, Stretch.render, fill, hget, hv, placeholder] using hkeep

/-! ## Sets of values -/

namespace SubstitutionSet

def Ordered (entries : List (Text × Value)) : Prop := entries.Pairwise fun a b => a.1 < b.1

theorem Ordered.nodup {entries : List (Text × Value)} (h : Ordered entries) :
    (entries.map Prod.fst).Nodup :=
  List.pairwise_map.mpr (h.imp fun hlt => ne_of_lt hlt)

theorem mem_insertIn {key : Text} {value : Value} {entries : List (Text × Value)}
    {e : Text × Value} (h : e ∈ insertIn key value entries) : e.1 = key ∨ e ∈ entries := by
  induction entries with
  | nil => exact Or.inl (congrArg Prod.fst (List.mem_singleton.mp h))
  | cons entry rest ih =>
    rw [insertIn] at h
    split at h
    · exact (List.mem_cons.mp h).imp (congrArg Prod.fst) (List.mem_cons_of_mem entry)
    · split at h
      · exact (List.mem_cons.mp h).imp_left (congrArg Prod.fst)
      · rcases List.mem_cons.mp h with rfl | h
        · exact Or.inr List.mem_cons_self
        · exact (ih h).imp_right (List.mem_cons_of_mem entry)

theorem Ordered.insertIn {entries : List (Text × Value)} (h : Ordered entries) (key : Text)
    (value : Value) : Ordered (SubstitutionSet.insertIn key value entries) := by
  induction entries with
  | nil => exact List.pairwise_singleton _ _
  | cons entry rest ih =>
    obtain ⟨hfirst, hrest⟩ := List.pairwise_cons.mp h
    rw [SubstitutionSet.insertIn]
    split
    · next heq => exact List.pairwise_cons.mpr ⟨fun e he => heq ▸ hfirst e he, hrest⟩
    · next hne =>
      split
      · next hlt =>
        refine List.pairwise_cons.mpr ⟨fun e he => ?_, h⟩
        rcases List.mem_cons.mp he with rfl | he
        · exact hlt
        · exact lt_trans hlt (hfirst e he)
      · next hle =>
        refine List.pairwise_cons.mpr ⟨fun e he => ?_, ih hrest⟩
        rcases mem_insertIn he with rfl | he
        · exact lt_of_le_of_ne (le_of_not_gt hle) (Ne.symm hne)
        · exact hfirst e he

theorem ordered_ofList (pairs : List (Text × Value)) : Ordered (ofList pairs).entries := by
  induction pairs using List.reverseRecOn with
  | nil => exact List.Pairwise.nil
  | append_singleton pairs e ih =>
    rw [ofList, List.foldl_concat, ← ofList]
    exact ih.insertIn e.1 e.2

end SubstitutionSet

theorem find?_key_iff {entries : List (Text × Value)} (hn : (entries.map Prod.fst).Nodup)
    {key : Text} {e : Text × Value} :
    entries.find? (fun e => e.1 = key) = some e ↔ e ∈ entries ∧ e.1 = key := by
  constructor
  · intro h
    exact ⟨List.mem_of_find?_eq_some h, by simpa using List.find?_some h⟩
  · rintro ⟨he, rfl⟩
    cases hfind : entries.find? fun e' => e'.1 = e.1 with
    | none => exact absurd (List.find?_eq_none.mp hfind e he) (by simp)
    | some e' =>
      have hkey : e'.1 = e.1 := by simpa using List.find?_some hfind
      exact congrArg some (List.inj_on_of_nodup_map hn (List.mem_of_find?_eq_some hfind) he hkey)

/-- The order of the entries does not matter if no key stands twice. -/
theorem textOf_perm {entries entries' : List (Text × Value)} (h : entries.Perm entries')
    (hn : (entries.map Prod.fst).Nodup) : textOf entries = textOf entries' := by
  have hn' : (entries'.map Prod.fst).Nodup := (h.map Prod.fst).nodup_iff.mp hn
  funext key
  have hfind : entries.find? (fun e => e.1 = key) = entries'.find? (fun e => e.1 = key) := by
    refine Option.ext fun e => ?_
    rw [find?_key_iff hn, find?_key_iff hn', h.mem_iff]
  rw [textOf, textOf, hfind]

theorem textOf_eq_none_iff {values : SubstitutionSet} {key : Text} :
    textOf values.entries key = none ↔ values.get? key = none := by
  simp [textOf, SubstitutionSet.get?]

/-- The slots that are left are those without a value. -/
theorem slot_mem_map_fill_iff {f : Text → Option Text} {stretches : List Stretch} {key : Text} :
    .slot key ∈ stretches.map (fill f) ↔ .slot key ∈ stretches ∧ f key = none := by
  rw [List.mem_map]
  constructor
  · rintro ⟨s, hs, hfill⟩
    cases s with
    | text t => cases hfill
    | slot k =>
      cases hk : f k with
      | some t => simp [fill, hk] at hfill
      | none =>
        obtain rfl : k = key := by simpa [fill, hk] using hfill
        exact ⟨hs, hk⟩
  · rintro ⟨hs, hf⟩
    exact ⟨.slot key, hs, by simp [fill, hf]⟩

theorem fill_fill (f : Text → Option Text) (s : Stretch) : (s.fill f).fill f = s.fill f := by
  cases s with
  | text t => rfl
  | slot k => cases hk : f k <;> simp [fill, hk]

/-- What it means for a document that its keys are filled in one after the other. -/
structure FillsAtOnce (document : Text) (values : SubstitutionSet) : Prop where
  once : substitute document values = fillOnce values document
  anyOrder : ∀ order : List (Text × Value), order.Perm values.entries →
    substitute document ⟨order⟩ = substitute document values
  filled : ∀ e ∈ values.entries, ¬ placeholder e.1 <:+: substitute document values
  /-- The slots of the other keys are left. -/
  left : ∀ keys : List Text, (∀ key ∈ keys, Braceless key) →
    unresolved (substitute document values) keys =
      keys.filter fun key => placeholder key <:+: document ∧ values.get? key = none
  again : substitute (substitute document values) values = substitute document values

/-- A flat document may as well be filled in at once with the values of a set, whatever has been
put into the set, if they have no braces. -/
theorem fillsAtOnce_ofList (pairs : List (Text × Value)) {document : Text} (hd : Flat document)
    (hv : BracelessEntries (SubstitutionSet.ofList pairs).entries) :
    FillsAtOnce document (.ofList pairs) := by
  have hnodup := (SubstitutionSet.ordered_ofList pairs).nodup
  generalize SubstitutionSet.ofList pairs = values at hv hnodup ⊢
  obtain ⟨stretches, e, rfl, htidy, he⟩ := hd.exists_stretches
  have hfill := substitute_renderStretches hv htidy he
  have htidy' : ∀ s ∈ stretches.map (fill (textOf values.entries)), s.Tidy := by
    intro s hs
    obtain ⟨u, hu, rfl⟩ := List.mem_map.mp hs
    exact fill_tidy (fun k t ht => (braceless_textOf hv k t ht).1) (htidy u hu)
  have hslot {key : Text} (hkey : Braceless key) :
      placeholder key <:+: substitute (renderStretches stretches ++ e) values ↔
        placeholder key <:+: renderStretches stretches ++ e ∧ values.get? key = none := by
    rw [hfill, infix_renderStretches_iff htidy' he hkey, infix_renderStretches_iff htidy he hkey,
      slot_mem_map_fill_iff, textOf_eq_none_iff]
  refine ⟨?_, fun order horder => ?_, fun entry hentry h => ?_, fun keys hkeys => ?_, ?_⟩
  · rw [hfill, fillOnce_renderStretches values htidy he]
  · have horder' : BracelessEntries order := fun e he => hv e (horder.mem_iff.mp he)
    rw [substitute_renderStretches horder' htidy he, hfill, textOf_perm horder.symm hnodup]
  · have hnone := ((hslot (hv entry hentry).1).mp h).2
    exact SubstitutionSet.get?_eq_none_iff.mp hnone entry hentry rfl
  · refine List.filter_congr fun key hkey => ?_
    rw [Bool.eq_iff_iff, contains_iff, hslot (hkeys key hkey), decide_eq_true_iff]
  · rw [hfill, substitute_renderStretches hv htidy' he, List.map_map]
    simp only [Function.comp_def, fill_fill]

/-- A stray brace, an empty key, a key without a value and one that is never closed. -/
def looseForm : Text :=
  ['}'] ++ placeholder "b".toList ++ placeholder "a".toList ++ placeholder [] ++
    ['<'] ++ placeholder "c".toList ++ ['>'] ++ placeholder "a".toList ++ ['{', 'b']

def looseValues : List (Text × Value) :=
  [("b".toList, .text "x < y".toList), ([], .scalar []), ("a".toList, .scalar "0".toList),
    ("a".toList, .scalar "<1/>".toList)]

theorem looseForm_fillsAtOnce :
    Flat looseForm ∧ BracelessEntries (SubstitutionSet.ofList looseValues).entries ∧
      substitute looseForm (.ofList looseValues) =
        '}' :: "x &lt; y<1/><".toList ++ placeholder "c".toList ++ "><1/>".toList ++
          ['{', 'b'] ∧
      FillsAtOnce looseForm (.ofList looseValues) :=
  ⟨by decide, by decide, by decide, fillsAtOnce_ofList looseValues (by decide) (by decide)⟩

/-! ## Markup -/

def markupChars : List Char := ['<', '>', '"', '\'']

def markup (t : Text) : Text := t.filter (· ∈ markupChars)

theorem markup_eq_nil_iff {t : Text} : markup t = [] ↔ ∀ c ∈ markupChars, c ∉ t := by
  simp only [markup, List.filter_eq_nil_iff, decide_eq_true_iff]
  exact ⟨fun h c hc ht => h c ht hc, fun h c ht hc => h c hc ht⟩

theorem markup_escape (t : Text) : markup (escape t) = [] := by
  have hescaped : ∀ c ∈ markupChars, escapeChar c ≠ [c] := forall_mem_of_all (by decide)
  have hentities : ∀ c ∈ markupChars, ∀ e ∈ entities, c ∉ e.1 := forall_mem_of_all (by decide)
  rw [markup_eq_nil_iff]
  intro c hc hmem
  obtain ⟨d, -, hd⟩ := List.mem_flatMap.mp hmem
  rcases escapeChar_cases d with h | ⟨e, he, -, h⟩
  · rw [h, List.mem_singleton] at hd
    exact hescaped c hc (hd ▸ h)
  · exact hentities c hc e he (h ▸ hd)

theorem markup_placeholder {key : Text} (h : ∀ c ∈ markupChars, c ∉ key) :
    markup (placeholder key) = [] := by
  have hbraces : ∀ c ∈ markupChars, c ∉ ['{', '}'] := forall_mem_of_all (by decide)
  rw [markup_eq_nil_iff]
  intro c hc hmem
  have hbrace := hbraces c hc
  simp only [placeholder, List.cons_append, List.mem_cons, List.mem_append, List.not_mem_nil,
    or_false] at hmem hbrace
  rcases hmem with hopen | hkey | hclose
  · exact hbrace (Or.inl hopen)
  · exact h c hc hkey
  · exact hbrace (Or.inr hclose)

/-- Filling in keys and values without markup leaves the markup of every document as it is; the
free texts among the values may hold anything. -/
theorem markup_substitute {values : SubstitutionSet}
    (hkeys : ∀ e ∈ values.entries, ∀ c ∈ markupChars, c ∉ e.1)
    (hscalars : ∀ e ∈ values.entries, ∀ t, e.2 = .scalar t → ∀ c ∈ markupChars, c ∉ t)
    (document : Text) : markup (substitute document values) = markup document := by
  obtain ⟨entries⟩ := values
  induction entries generalizing document with
  | nil => rfl
  | cons e rest ih =>
    obtain ⟨hkey, hkeys⟩ := List.forall_mem_cons.mp hkeys
    obtain ⟨hscalar, hscalars⟩ := List.forall_mem_cons.mp hscalars
    have hvalue : markup e.2.render = [] := by
      cases hv : e.2 with
      | text t => exact markup_escape t
      | scalar t => exact markup_eq_nil_iff.mpr (hscalar t hv)
    have hstep : markup (replaceAll (placeholder e.1) e.2.render document) = markup document :=
      filter_replaceAll (placeholder_ne_nil e.1) (hvalue.trans (markup_placeholder hkey).symm)
        document
    exact (ih (replaceAll (placeholder e.1) e.2.render document) hkeys hscalars).trans hstep

/-- Values that make slots of other keys, with each other and around a tag. -/
def nestedValues : List (Text × Value) :=
  [("a".toList, .text ['{', 'b']), ("b".toList, .text "<b c='\"'>".toList),
    ("bd".toList, .scalar ('}' :: placeholder "a".toList))]

def nestedForm : Text :=
  "<x>".toList ++ placeholder (placeholder "a".toList ++ ['d']) ++ placeholder "b".toList ++
    placeholder (placeholder "a".toList) ++ "</x>".toList

theorem markup_nestedForm :
    substitute nestedForm (.ofList nestedValues) =
        "<x>".toList ++ placeholder [] ++ placeholder "a".toList ++ escape "<b c='\"'>".toList ++
          '{' :: escape "<b c='\"'>".toList ++ "</x>".toList ∧
      markup (substitute nestedForm (.ofList nestedValues)) = markup nestedForm := by
  have hentries : (SubstitutionSet.ofList nestedValues).entries = nestedValues := by decide
  refine ⟨by decide, markup_substitute ?_ ?_ nestedForm⟩ <;>
    rw [hentries] <;> simp [nestedValues, markupChars, placeholder]

end LedgerExport.Request
