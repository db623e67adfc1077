import LedgerExport.Proofs.Request.Query

/-! # Requests that say the same

Two requests with one text were made for one company and over one path, evaluate the same
expressions in the same order, and fetch and filter the same. Each of these is read off the tree of
the request.
-/
namespace LedgerExport.Request
open Text

/-- Numbered entries tell the lists apart if every number tells its entries apart. -/
theorem map_zipIdx_injective {α β : Type} {f : α × Nat → β}
    (hf : ∀ n, Function.Injective fun a => f (a, n)) {l m : List α} {k : Nat}
    (h : (l.zipIdx k).map f = (m.zipIdx k).map f) : l = m := by
  induction l generalizing m k with
  | nil =>
    cases m with
    | nil => rfl
    | cons b bs => exact absurd h (List.cons_ne_nil _ _).symm
  | cons a as ih =>
    cases m with
    | nil => exact absurd h (List.cons_ne_nil _ _)
    | cons b bs =>
      obtain ⟨hab, hrest⟩ := List.cons.inj h
      rw [hf k hab, ih hrest]

/-- An optional list of texts without commas is read back, also one that holds an empty text. -/
theorem optional_join_inj {a b : List Text} (ha : ∀ x ∈ a, ',' ∉ x) (hb : ∀ x ∈ b, ',' ∉ x)
    (h : (if a.isEmpty then [] else [join [','] a]) = if b.isEmpty then [] else [join [','] b]) :
    a = b := by
  cases a with
  | nil =>
    cases b with
    | nil => rfl
    | cons y ys => exact absurd h (List.cons_ne_nil _ _).symm
  | cons x xs =>
    cases b with
    | nil => exact absurd h (List.cons_ne_nil _ _)
    | cons y ys =>
      have hjoin : join [','] (x :: xs) = join [','] (y :: ys) := (List.cons.inj h).1
      rw [← splitOn_join_singleton (List.cons_ne_nil x xs) ha, hjoin,
        splitOn_join_singleton (List.cons_ne_nil y ys) hb]

section Parts
variable {t₁ t₂ : Table} {c₁ c₂ : Text} (h : requestElement t₁ c₁ = requestElement t₂ c₂)
include h

theorem company_eq_of_requestElement : c₁ = c₂ := by
  have hcompany := congrArg (Element.textsUnder "STATICVARIABLES" "SVCURRENTCOMPANY") h
  rw [under_company, under_company] at hcompany
  exact escape_injective (List.cons.inj hcompany).1

theorem collection_eq_of_requestElement : t₁.collection = t₂.collection := by
  have htarget := congrArg (Element.textsUnder "COLLECTION" "TYPE") h
  rw [under_type, under_type] at htarget
  have hrepeat := congrArg (Element.textsUnder "PART" "REPEAT") h
  rw [under_repeat, under_repeat] at hrepeat
  have hroutes : (Route.parse t₁.collection).routes = (Route.parse t₂.collection).routes :=
    map_zipIdx_injective (fun n => List.append_right_injective (lineName n ++ " : ".toList)) hrepeat
  exact Route.parse_injective (congrArg₂ Route.mk (List.cons.inj htarget).1 hroutes)

theorem expressions_eq_of_requestElement :
    t₁.fields.map valueExpression = t₂.fields.map valueExpression := by
  have hset := congrArg (Element.textsUnder "FIELD" "SET") h
  rw [under_set, under_set] at hset
  exact List.append_cancel_right hset

theorem fetch_eq_of_requestElement (h₁ : ∀ x ∈ t₁.fetch, ',' ∉ x)
    (h₂ : ∀ x ∈ t₂.fetch, ',' ∉ x) : t₁.fetch = t₂.fetch := by
  have hfetch := congrArg (Element.textsUnder "COLLECTION" "FETCH") h
  rw [under_fetch, under_fetch] at hfetch
  exact optional_join_inj h₁ h₂ hfetch

theorem filters_eq_of_requestElement : t₁.filters = t₂.filters := by
  have hsystem := congrArg (fun e => (e.elements "SYSTEM").map Element.text) h
  rwa [texts_system, texts_system] at hsystem

end Parts

/-- A request tells for which company it is, and what of which records it asks for. -/
theorem compile_faithful {t₁ t₂ : Table} {c₁ c₂ : Text} (h₁ : MarkFree t₁) (h₂ : MarkFree t₂)
    (hfetch₁ : ∀ x ∈ t₁.fetch, ',' ∉ x) (hfetch₂ : ∀ x ∈ t₂.fetch, ',' ∉ x)
    (h : compile t₁ c₁ = compile t₂ c₂) :
    c₁ = c₂ ∧ t₁.collection = t₂.collection ∧
      t₁.fields.map valueExpression = t₂.fields.map valueExpression ∧
      t₁.fetch = t₂.fetch ∧ t₁.filters = t₂.filters := by
  have htree : requestElement t₁ c₁ = requestElement t₂ c₂ := by
    apply Option.some.inj
    rw [← h₁.readElement_compile, h, h₂.readElement_compile]
  exact ⟨company_eq_of_requestElement htree, collection_eq_of_requestElement htree,
    expressions_eq_of_requestElement htree, fetch_eq_of_requestElement htree hfetch₁ hfetch₂,
    filters_eq_of_requestElement htree⟩

/-- Vouchers with one column, which is asked for by the name of the method. -/
def dayBook : Table where
  name := "day book".toList
  collection := "Voucher.AllLedgerEntries".toList
  fields := [⟨"ledger".toList, "LedgerName".toList, .text⟩]
  fetch := ["AllLedgerEntries".toList, []]
  filters := ["NOT $IsCancelled AND $Amount > 0".toList]

/-- The same column under another name, asked for by its expression. -/
def entryBook : Table where
  name := "entry book".toList
  collection := "Voucher.AllLedgerEntries".toList
  fields := [⟨"account".toList, "$LedgerName".toList, .raw⟩]
  fetch := ["AllLedgerEntries".toList, []]
  filters := ["NOT $IsCancelled AND $Amount > 0".toList]

theorem markFree_dayBook : MarkFree dayBook := ⟨by decide, by decide, by decide, by decide⟩

theorem markFree_entryBook : MarkFree entryBook := ⟨by decide, by decide, by decide, by decide⟩

theorem compile_dayBook_eq_entryBook :
    compile dayBook "Müller & <Söhne>".toList = compile entryBook "Müller & <Söhne>".toList ∧
      dayBook.fields.map valueExpression = entryBook.fields.map valueExpression ∧
      dayBook.fetch = entryBook.fetch ∧ dayBook ≠ entryBook := by
  have hfields : fieldsPieces dayBook.fields = fieldsPieces entryBook.fields := by decide
  have h : compile dayBook "Müller & <Söhne>".toList =
      compile entryBook "Müller & <Söhne>".toList := by
    rw [compile, compile, documentPieces, documentPieces, hfields]
    rfl
  obtain ⟨-, -, hexpressions, hfetch, -⟩ := compile_faithful markFree_dayBook markFree_entryBook
    (by decide) (by decide) h
  exact ⟨h, hexpressions, hfetch, by decide⟩

end LedgerExport.Request
