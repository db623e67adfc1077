import LedgerExport.Run.Job
import LedgerExport.Proofs.Calendar.Writing
import LedgerExport.Proofs.Request.Placeholder
import LedgerExport.Proofs.Run.Transcript
import LedgerExport.Proofs.Steps

/-! # The period in the requests of a job

A run fills its values in over the whole document, one key after the other, so that a text of the
caller with a placeholder in it is rewritten with the header. The main statement
`runWith_sends_dated_iff` says exactly when the header's two placeholders are all that changes.
-/
namespace LedgerExport.Run
open Request Text JobConfig

def fill (start finish company : Text) (x : Text) : Text :=
  replaceAll (placeholder toDateKey) finish
    (replaceAll (placeholder targetCompanyKey) (escape company)
      (replaceAll (placeholder fromDateKey) start x))

/-- The header's own placeholders become the two ends of the period, and the content is filled in
behind them. -/
theorem fill_compile {start : Text} (hs : '{' ∉ start) (finish : Text) (t : Table)
    (company : Text) :
    fill start finish company (compile t company) =
      preface start finish ++ fill start finish company (content t company) := by
  obtain ⟨x, y, z, ⟨hx, hy, hz⟩, hpre⟩ := preface_eq
  have hstart (u : Text) : replaceAll (placeholder fromDateKey) start (placeholder toDateKey ++ u) =
      placeholder toDateKey ++ replaceAll (placeholder fromDateKey) start u :=
    replaceAll_other_placeholder (by decide) (by decide) (by decide) (by decide) start u
  have hcompany (u : Text) :
      replaceAll (placeholder targetCompanyKey) (escape company) (placeholder toDateKey ++ u) =
        placeholder toDateKey ++ replaceAll (placeholder targetCompanyKey) (escape company) u :=
    replaceAll_other_placeholder (by decide) (by decide) (by decide) (by decide) _ u
  rw [compile_eq_dated, dated, hpre, hpre]
  simp only [fill, List.append_assoc, replaceAll_placeholder_append hx,
    replaceAll_placeholder_append hy, replaceAll_placeholder_append hz,
    replaceAll_placeholder_append hs, replaceAll_own_placeholder, hstart, hcompany]

/-- Filling in leaves a text alone, and no end of the period open, exactly if the text asks for
neither and the company's name is not put in the place of anything else. -/
theorem fill_eq_self_iff {start finish company x : Text} (hf : 0 < finish.countP Char.isDigit) :
    ((∀ key ∈ periodKeys, ¬ placeholder key <:+: fill start finish company x) ∧
        fill start finish company x = x) ↔
      (∀ key ∈ periodKeys, ¬ placeholder key <:+: x) ∧
        (placeholder targetCompanyKey <:+: x → company = placeholder targetCompanyKey) := by
  have hescape : escape company = placeholder targetCompanyKey ↔
      company = placeholder targetCompanyKey := escape_eq_iff (forall_mem_of_all (by decide))
  have hfrom : fromDateKey ∈ periodKeys := by decide
  have hto : toDateKey ∈ periodKeys := by decide
  rw [← hescape]
  constructor
  · rintro ⟨hopen, hself⟩
    rw [hself] at hopen
    refine ⟨hopen, ?_⟩
    rw [fill, replaceAll_eq_self (hopen _ hfrom)] at hself
    -- no digit is new, so that the second end of the period has not been filled in
    have hnone : ¬ placeholder toDateKey <:+:
        replaceAll (placeholder targetCompanyKey) (escape company) x := by
      refine not_infix_of_countP_le (placeholder_ne_nil toDateKey) (by decide) hf ?_
      rw [hself]
      exact le_countP_replaceAll (placeholder_ne_nil targetCompanyKey) (by decide) _ x
    rw [replaceAll_eq_self hnone] at hself
    exact (replaceAll_eq_self_iff (placeholder_ne_nil _)).mp hself
  · rintro ⟨hopen, hcompany⟩
    have hself : fill start finish company x = x := by
      rw [fill, replaceAll_eq_self (hopen _ hfrom),
        (replaceAll_eq_self_iff (placeholder_ne_nil _)).mpr hcompany,
        replaceAll_eq_self (hopen _ hto)]
    rw [hself]
    exact ⟨hopen, rfl⟩

/-- The caller's texts ask for neither end of the period, nor for the company unless its name is
just that placeholder, which is then put in its own place. -/
def Untouched (t : Table) (company : Text) : Prop :=
  (∀ x ∈ callerTexts t company, ∀ key ∈ periodKeys, ¬ placeholder key <:+: x) ∧
    ((∃ x ∈ callerTexts t company, placeholder targetCompanyKey <:+: x) →
      company = placeholder targetCompanyKey)

instance (t : Table) (company : Text) : Decidable (Untouched t company) := by
  unfold Untouched; infer_instance

def session (channel : Channel) (c : JobConfig) (period : Date × Date) : Session :=
  ⟨channel, c.effectiveCompany, c.valuesOf period⟩

section Jobs
variable (channel : Channel) (c : JobConfig) (a b : Date)

theorem session_document (t : Table) :
    (session channel c (a, b)).document t = preface a.compact b.compact ++
      fill a.compact b.compact c.effectiveCompany (content t c.effectiveCompany) :=
  fill_compile a.brace_not_mem_compact b.compact t c.effectiveCompany

/-- A table is sent with just its period filled in if and only if its texts are untouched. -/
theorem ready_and_document_iff (t : Table) :
    ((session channel c (a, b)).Ready t ∧
        (session channel c (a, b)).document t =
          dated a.compact b.compact t c.effectiveCompany) ↔ Untouched t c.effectiveCompany := by
  have hpre : '{' ∉ preface a.compact b.compact := by
    obtain ⟨x, y, z, ⟨hx, hy, hz⟩, h⟩ := preface_eq
    rw [h]
    exact brace_not_mem_append hx (brace_not_mem_append a.brace_not_mem_compact
      (brace_not_mem_append hy (brace_not_mem_append b.brace_not_mem_compact hz)))
  have hkeys : ∀ key ∈ periodKeys, Sought (placeholder key) := by
    have hletters : ∀ key ∈ periodKeys, key.all Char.isAlpha = true := by decide
    exact fun key hk => sought_placeholder (List.all_eq_true.mp (hletters key hk))
  have hcompany : Sought (placeholder targetCompanyKey) :=
    sought_placeholder (forall_mem_of_all (by decide))
  rw [Session.Ready, Settled, session_document, dated, List.append_cancel_left_eq, Untouched,
    ← infix_content_iff hcompany]
  have hready : (∀ key ∈ periodKeys, ¬ placeholder key <:+: preface a.compact b.compact ++
        fill a.compact b.compact c.effectiveCompany (content t c.effectiveCompany)) ↔
      ∀ key ∈ periodKeys, ¬ placeholder key <:+:
        fill a.compact b.compact c.effectiveCompany (content t c.effectiveCompany) :=
    forall₂_congr fun key hk => not_congr ((hkeys key hk).infix_append_iff hpre)
  have htexts : (∀ x ∈ callerTexts t c.effectiveCompany, ∀ key ∈ periodKeys,
        ¬ placeholder key <:+: x) ↔
      ∀ key ∈ periodKeys, ¬ placeholder key <:+: content t c.effectiveCompany := by
    constructor
    · intro h key hk hi
      obtain ⟨x, hx, hi⟩ := (infix_content_iff (hkeys key hk) t _).mp hi
      exact h x hx key hk hi
    · intro h x hx key hk hi
      exact h key hk ((infix_content_iff (hkeys key hk) t _).mpr ⟨x, hx, hi⟩)
  rw [hready, htexts]
  exact fill_eq_self_iff b.digit_mem_compact

/-- Once its definition is read and its dates are, a job runs all selected tables. -/
theorem runWith_eq {readers : Readers} {files : Files.FileReader} {definition : Definition}
    (hd : loadDefinition readers files c.definition = .ok definition)
    (hp : c.period = .ok (a, b)) :
    runWith readers files channel c = .ok ((session channel c (a, b)).run
      (definition.select c.importMaster c.importTransaction)) := by
  have hvalues : c.substitutions = .ok (c.valuesOf (a, b)) := by
    rw [substitutions, hp]
    rfl
  rw [runWith, sendWith, prepare, hd, hvalues]
  rfl

end Jobs

/-- A job sends the documents of its ready tables. The request of a table has two open ends of the
period, and it is sent with nothing but these filled in if and only if the caller's texts are
untouched. -/
theorem runWith_sends_dated_iff (readers : Readers) (files : Files.FileReader) (channel : Channel)
    (c : JobConfig) {definition : Definition} {a b : Date}
    (hd : loadDefinition readers files c.definition = .ok definition)
    (hp : c.period = .ok (a, b)) :
    let tables := definition.select c.importMaster c.importTransaction
    let s := session channel c (a, b)
    let filled (t : Table) := dated a.compact b.compact t c.effectiveCompany
    ∃ transcript, runWith readers files channel c = .ok transcript ∧
      transcript.sent = s.requests tables ∧
      (∀ t ∈ tables,
        compile t c.effectiveCompany =
            dated (placeholder fromDateKey) (placeholder toDateKey) t c.effectiveCompany ∧
          (s.Ready t ∧ s.document t = filled t ↔ Untouched t c.effectiveCompany)) ∧
      (transcript.sent = tables.map filled ↔ ∀ t ∈ tables, Untouched t c.effectiveCompany) := by
  intro tables s filled
  have htable (t : Table) : s.Ready t ∧ s.document t = filled t ↔ Untouched t c.effectiveCompany :=
    ready_and_document_iff channel c a b t
  refine ⟨s.run tables, runWith_eq channel c a b hd hp, s.run_sent tables,
    fun t _ => ⟨compile_eq_dated t c.effectiveCompany, htable t⟩, ?_⟩
  rw [s.run_sent, s.requests_eq_map_iff]
  exact forall₂_congr fun t _ => htable t

def groupsFile : Files.FileReader where
  isFile _ := true
  read _ := .ok (encodeUtf8
    ("master:\n  - name: groups\n    collection: Group\n    fields:\n" ++
      "      - name: name\n        field: Name\n        type: text\n").toList)

def groups : Table where
  name := "groups".toList
  collection := "Group".toList
  fields := [⟨"name".toList, "Name".toList, .text⟩]

def groupsJob (company : Text) : JobConfig where
  definition := "groups.yaml".toList
  fromDate := "2024-04-01".toList
  toDate := "2025-03-31".toList
  company := some company
  server := "localhost".toList
  port := 9000

def yearStart : Date := ⟨2024, 4, 1, by decide⟩
def yearEnd : Date := ⟨2025, 3, 31, by decide⟩

theorem groupsFile_definition (company : Text) :
    loadDefinition .standard groupsFile (groupsJob company).definition = .ok ⟨[groups], []⟩ := by
  have h : (loadDefinition .standard groupsFile "groups.yaml".toList).toOption =
      some ⟨[groups], []⟩ := by decide +kernel
  exact eq_ok_of_toOption h

theorem groupsJob_period (company : Text) :
    (groupsJob company).period = .ok (yearStart, yearEnd) := rfl

theorem runWith_sends_groups_dated :
    ∃ transcript, runWith .standard groupsFile .unreachable
      (groupsJob "Acme & Co".toList) = .ok transcript ∧
      transcript.sent =
        [dated "20240401".toList "20250331".toList groups "Acme & Co".toList] := by
  obtain ⟨transcript, hrun, -, -, hsent⟩ := runWith_sends_dated_iff .standard groupsFile
    .unreachable (groupsJob "Acme & Co".toList) (groupsFile_definition _) (groupsJob_period _)
  exact ⟨transcript, hrun, hsent.mpr (by decide)⟩

/-- A company named like the start of the period is sent as the start of the period. -/
theorem not_runWith_sends_dated :
    ¬ ∀ (files : Files.FileReader) (channel : Channel) (c : JobConfig) (definition : Definition)
      (a b : Date), loadDefinition .standard files c.definition = .ok definition →
        c.period = .ok (a, b) →
          ∃ transcript, runWith .standard files channel c = .ok transcript ∧
            transcript.sent = (definition.select c.importMaster c.importTransaction).map
              fun t => dated a.compact b.compact t c.effectiveCompany := by
  intro h
  obtain ⟨transcript, hrun, hsent⟩ := h groupsFile .unreachable
    (groupsJob (placeholder fromDateKey)) _ _ _ (groupsFile_definition _) (groupsJob_period _)
  rw [runWith_eq _ _ _ _ (groupsFile_definition _) (groupsJob_period _)] at hrun
  obtain rfl := Except.ok.inj hrun
  rw [Session.run_sent, Session.requests_eq_map_iff] at hsent
  have huntouched := (ready_and_document_iff _ _ _ _ _).mp (hsent groups (by decide))
  exact absurd huntouched (by decide)

end LedgerExport.Run
