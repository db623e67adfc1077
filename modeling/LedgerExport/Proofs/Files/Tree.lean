import LedgerExport.Files.Tree
import LedgerExport.Proofs.Steps
import LedgerExport.Proofs.Text.Replacement

/-! # What writing leaves behind

In a tree a written file is read back from the path under which it was written: writing touches no
directory, so that the walk along the path leads to the same place again. The main statement is
`readsBack`.
-/
namespace LedgerExport.Files

theorem decodeUtf8_encodeUtf8 (t : Text) : Text.decodeUtf8? (Text.encodeUtf8 t) = some t := by
  have hstring (s : String) : String.fromUTF8? s.toUTF8 = some s := by
    simp only [String.fromUTF8?, String.toUTF8_eq_toByteArray, dif_pos s.isValidUTF8]
    rfl
  have hbytes : (⟨(Text.encodeUtf8 t).toArray⟩ : ByteArray) = (String.ofList t).toUTF8 := rfl
  rw [Text.decodeUtf8?, hbytes, hstring, Option.map_some, String.toList_ofList]

theorem FileReader.text_of_read {files : FileReader} {path t : Text}
    (h : files.read path = .ok (Text.encodeUtf8 t)) : files.text path = .ok t := by
  refine bind_eq_ok_iff.mpr ⟨Text.encodeUtf8 t, h, ?_⟩
  rw [decodeUtf8_encodeUtf8]
  rfl

/-- What is written under a path is read back from it. -/
def ReadsBack {σ : Type} [FileSystem σ] (files : σ) (path : Text) : Prop :=
  ∀ bytes left, write files path bytes = (.ok (), left) → (reader left).read path = .ok bytes

namespace Tree
variable {t : Tree} {path name : Text} {bytes : Bytes} {p q : Place}

theorem find?_put_self (h : p ≠ []) : (t.put p bytes).find? p = some (.file bytes) := by
  simp [find?, put, h]

theorem find?_put_of_ne (h : q ≠ p) : (t.put p bytes).find? q = t.find? q := by
  have hother : (t.nodes.filter fun e => e.1 != p).find? (fun e => e.1 == q) =
      t.nodes.find? fun e => e.1 == q := by
    rw [List.find?_filter]
    congr 1
    funext e
    by_cases he : e.1 = q <;> simp [he, h]
  simp [find?, put, hother, Ne.symm h]

/-- Steps are taken out of directories only. -/
theorem directory_of_step (h : t.step p name = .ok q) : t.find? p = some .directory := by
  unfold step at h
  split at h
  · cases h
  · cases h
  · assumption

/-- A step out of a directory of the old tree is the same step in the new one. -/
theorem step_put (hp : t.find? p ≠ some .directory) {next : Place}
    (h : t.step q name = .ok next) : (t.put p bytes).step q name = .ok next := by
  have hq : q ≠ p := by
    rintro rfl
    exact hp (directory_of_step h)
  rw [step, find?_put_of_ne hq]
  exact h

/-- So a walk that succeeds in the old tree is the same walk in the new one. -/
theorem foldlM_step_put (hp : t.find? p ≠ some .directory) (steps : List Text) {next : Place}
    (h : steps.foldlM t.step q = .ok next) :
    steps.foldlM (t.put p bytes).step q = .ok next := by
  induction steps generalizing q with
  | nil => exact h
  | cons name steps ih =>
    rw [List.foldlM_cons] at h ⊢
    obtain ⟨r, hr, h⟩ := bind_eq_ok_iff.mp h
    rw [step_put hp hr]
    exact ih h

/-- A path that does not end in a slash has no empty steps at its end. -/
theorem names_eq {steps : List Text}
    (h : ¬ (steps.reverse.dropWhile List.isEmpty).reverse.length < steps.length) :
    (steps.reverse.dropWhile List.isEmpty).reverse = steps := by
  have hsuffix := List.dropWhile_suffix (List.isEmpty (α := Char)) (l := steps.reverse)
  have heq := hsuffix.eq_of_length_le (by simpa using h)
  rw [heq, List.reverse_reverse]

/-- The walk along a path leads to the place of the file, which is no directory. -/
theorem of_target (h : t.target path = .ok p) :
    checkPath path = .ok () ∧ t.walk path (Text.splitOn ['/'] path) = .ok p ∧
      t.find? p ≠ some .directory := by
  obtain ⟨⟨⟩, hcheck, h⟩ := bind_eq_ok_iff.mp h
  obtain ⟨dir, hwalk, h⟩ := bind_eq_ok_iff.mp h
  obtain ⟨place, hstep, h⟩ := bind_eq_ok_iff.mp h
  split at h
  · cases h
  rename_i hfree
  obtain rfl := Except.ok.inj h
  rw [Bool.or_eq_true, decide_eq_true_eq, decide_eq_true_eq, not_or] at hfree
  obtain ⟨hlength, hfind⟩ := hfree
  rw [names_eq hlength] at hwalk hstep
  refine ⟨hcheck, ?_, hfind⟩
  have hne : Text.splitOn ['/'] path ≠ [] := Text.splitOn_ne_nil _ _
  rw [List.getLast?_eq_some_getLast hne, Option.getD_some] at hstep
  rw [walk, ← List.dropLast_concat_getLast hne, List.foldlM_append]
  refine bind_eq_ok_iff.mpr ⟨dir, hwalk, ?_⟩
  rw [List.foldlM_cons]
  exact bind_eq_ok_iff.mpr ⟨place, hstep, rfl⟩

/-- A file is read under the path that leads to its place. -/
theorem read_put_of_target (h : t.target path = .ok p) (bytes : Bytes) :
    (t.put p bytes).read path = .ok bytes := by
  obtain ⟨hcheck, hwalk, hfind⟩ := of_target h
  have hroot : p ≠ [] := by
    rintro rfl
    exact hfind rfl
  have hlocate : (t.put p bytes).locate path = .ok (.file bytes) := by
    refine bind_eq_ok_iff.mpr ⟨(), hcheck, bind_eq_ok_iff.mpr ⟨p, ?_, ?_⟩⟩
    · exact foldlM_step_put hfind _ hwalk
    · rw [find?_put_self hroot]
      rfl
  exact bind_eq_ok_iff.mpr ⟨.file bytes, hlocate, rfl⟩

/-- A tree keeps what is written in it. -/
theorem readsBack (t : Tree) (path : Text) : ReadsBack t path := by
  intro bytes left h
  change t.writeFile path bytes = (.ok (), left) at h
  rw [writeFile] at h
  cases htarget : t.target path with
  | error fault =>
    rw [htarget] at h
    cases h
  | ok p =>
    rw [htarget] at h
    cases h
    exact read_put_of_target htarget bytes

end Tree

end LedgerExport.Files
