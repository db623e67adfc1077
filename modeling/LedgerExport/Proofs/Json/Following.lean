import LedgerExport.Proofs.Json.Spelling
import LedgerExport.Proofs.Steps

/-! # What follows strings and numbers

The reader does not look past the end of a string, and a closing brace ends a number. So both are
read from a text in the same way if a brace stands behind it. The main statements are
`readString_append` and `readNumber_append`.
-/
namespace LedgerExport.Json
open JsonFault

/-! ## Strings -/

theorem readStringFrom_drop (n : Nat) (t : Text) : readStringFrom n t = readString (t.drop n) := by
  induction t generalizing n with
  | nil => cases n <;> rfl
  | cons c cs ih =>
    cases n with
    | zero => rfl
    | succ n => simpa [readStringFrom] using ih n

theorem skipStringFrom_drop (n : Nat) (t : Text) : skipStringFrom n t = skipString (t.drop n) := by
  induction t generalizing n with
  | nil => cases n <;> rfl
  | cons c cs ih =>
    cases n with
    | zero => rfl
    | succ n => simpa [skipStringFrom] using ih n

section Strings
variable {t rest : Text}

/-- A string ends at its quote, or goes on behind an escape or another character. -/
theorem skipString_cases (h : skipString t = .ok rest) :
    t = '"' :: rest ∨
      (∃ cs n, t = '\\' :: cs ∧ escapeLength? cs = .ok n ∧ skipString (cs.drop n) = .ok rest) ∨
      ∃ c cs, t = c :: cs ∧ c ≠ '"' ∧ c ≠ '\\' ∧ ¬ c.toNat < 0x20 ∧ skipString cs = .ok rest := by
  cases t with
  | nil => cases h
  | cons c cs =>
    rw [skipString, skipStringFrom] at h
    split at h
    · next hquote =>
      obtain rfl := Except.ok.inj h
      exact Or.inl (by rw [hquote])
    · next hquote =>
      split at h
      · next hslash =>
        split at h
        · cases h
        · next n hn =>
          rw [skipStringFrom_drop] at h
          exact Or.inr (Or.inl ⟨cs, n, by rw [hslash], hn, h⟩)
      · next hslash =>
        split at h
        · cases h
        · next hcontrol => exact Or.inr (Or.inr ⟨c, cs, rfl, hquote, hslash, hcontrol, h⟩)

theorem unit_append {n : Nat} (h : unit? t = .ok n) (y : Text) :
    4 ≤ t.length ∧ unit? (t ++ y) = .ok n := by
  match t with
  | a :: b :: c :: d :: t' => exact ⟨Nat.le_add_left 4 _, h⟩
  | [] | [_] | [_, _] | [_, _, _] => cases h

theorem escapeLength_unit {n : Nat} (h : escapeLength? ('u' :: t) = .ok n) :
    n = 5 ∧ ∃ k, unit? t = .ok k := by
  rw [escapeLength?] at h
  cases hk : unit? t with
  | error f =>
    rw [hk] at h
    cases h
  | ok k =>
    rw [hk] at h
    exact ⟨(Except.ok.inj h).symm, k, rfl⟩

theorem escapeLength_simple {c : Char} (hc : c ≠ 'u') :
    escapeLength? (c :: t) =
      if (simpleEscape? c).isSome then .ok 1 else .error invalidEscape := by
  unfold escapeLength?
  split
  · next heq => cases heq
  · next heq => exact absurd (List.cons.inj heq).1 hc
  · next heq => rw [(List.cons.inj heq).1]

theorem escape_simple {c : Char} (hc : c ≠ 'u') :
    escape? (c :: t) = match simpleEscape? c with
      | some r => .ok (r, 1)
      | none => .error invalidEscape := by
  unfold escape?
  split
  · next heq => cases heq
  · next heq => exact absurd (List.cons.inj heq).1 hc
  · next heq =>
    obtain ⟨rfl, -⟩ := List.cons.inj heq
    rfl

/-- An escape keeps its length, whatever follows it. -/
theorem escapeLength_append {n : Nat} (h : escapeLength? t = .ok n) (y : Text) :
    n ≤ t.length ∧ escapeLength? (t ++ y) = .ok n := by
  cases t with
  | nil => cases h
  | cons c cs =>
    by_cases hc : c = 'u'
    · subst hc
      obtain ⟨rfl, k, hk⟩ := escapeLength_unit h
      obtain ⟨hlen, hunit⟩ := unit_append hk y
      refine ⟨Nat.succ_le_succ hlen, ?_⟩
      rw [List.cons_append, escapeLength?, hunit]
      rfl
    · have happend := escapeLength_simple (t := cs ++ y) hc
      rw [escapeLength_simple hc] at h
      rw [List.cons_append, happend, h]
      split at h
      · obtain rfl := Except.ok.inj h
        exact ⟨Nat.succ_le_succ (Nat.zero_le _), rfl⟩
      · cases h

/-- A string is gone through from character to character; behind an escape any place in it may be
the next one. -/
@[elab_as_elim]
theorem string_induction {rest : Text} {motive : Text → Prop} {t : Text}
    (h : skipString t = .ok rest) (quote : motive ('"' :: rest))
    (escape : ∀ cs n, escapeLength? cs = .ok n → skipString (cs.drop n) = .ok rest →
      (∀ m, skipString (cs.drop m) = .ok rest → motive (cs.drop m)) → motive ('\\' :: cs))
    (plain : ∀ c cs, c ≠ '"' → c ≠ '\\' → ¬ c.toNat < 0x20 → motive cs → motive (c :: cs)) :
    motive t := by
  rcases skipString_cases h with ht | ⟨cs, n, ht, hn, hrest⟩ | ⟨c, cs, ht, hq, hs, hc, hrest⟩
  · exact ht ▸ quote
  · have hshort (m : Nat) : (cs.drop m).length < t.length := by
      rw [ht, List.length_drop, List.length_cons]
      omega
    exact ht ▸ escape cs n hn hrest fun m hm => string_induction hm quote escape plain
  · have hshort : cs.length < t.length := ht ▸ Nat.lt_succ_self cs.length
    exact ht ▸ plain c cs hq hs hc (string_induction hrest quote escape plain)
termination_by t.length
decreasing_by
  · exact hshort m
  · exact hshort

/-- A string ends where it did, whatever is put behind the text. -/
theorem skipString_append (h : skipString t = .ok rest) (y : Text) :
    skipString (t ++ y) = .ok (rest ++ y) := by
  refine string_induction h ?quote ?escape ?plain
  case quote => rfl
  case escape =>
    intro cs n hn hrest ih
    obtain ⟨hlen, hescape⟩ := escapeLength_append hn y
    rw [List.cons_append, skipString, skipString_escape hescape, skipStringFrom_drop,
      List.drop_append_of_le_length hlen, ih n hrest]
  case plain =>
    intro c cs hq hs hc ih
    rw [List.cons_append, skipString, skipStringFrom, if_neg hq, if_neg hs, if_neg hc]
    exact ih

theorem lowHalf_of_ne {c : Char} (hc : c ≠ '\\') : lowHalf? (c :: t) = .error halfPair := by
  unfold lowHalf?
  split
  · next heq => cases heq
  · next heq => exact absurd (List.cons.inj heq).1 hc
  · next heq => exact absurd (List.cons.inj heq).1 hc
  · rfl

theorem lowHalf_slash_of_ne {c : Char} (hc : c ≠ 'u') :
    lowHalf? ('\\' :: c :: t) = .error halfPair := by
  unfold lowHalf?
  split
  · next heq => cases heq
  · next heq => cases (List.cons.inj heq).2
  · next heq => exact absurd (List.cons.inj (List.cons.inj heq).2).1 hc
  · rfl

/-- The second half of a pair is read inside the string that holds it. -/
theorem lowHalf_append (h : skipString t = .ok rest) (y : Text) :
    lowHalf? (t ++ y) = lowHalf? t ∧
      ∀ k, lowHalf? t = .ok k → 6 ≤ t.length ∧ skipString (t.drop 6) = .ok rest := by
  rcases skipString_cases h with rfl | ⟨cs, n, rfl, hn, hrest⟩ | ⟨c, cs, rfl, -, hs, -, -⟩
  · rw [List.cons_append, lowHalf_of_ne (by decide), lowHalf_of_ne (by decide)]
    exact ⟨rfl, fun k hk => by cases hk⟩
  · cases cs with
    | nil => cases hn
    | cons c cs =>
      by_cases hc : c = 'u'
      · subst hc
        obtain ⟨rfl, k, hk⟩ := escapeLength_unit hn
        obtain ⟨hlen, hunit⟩ := unit_append hk y
        refine ⟨?_, fun k _ => ⟨?_, hrest⟩⟩
        · rw [List.cons_append, List.cons_append, lowHalf?, lowHalf?, hunit, hk]
        · rw [List.length_cons, List.length_cons]
          omega
      · rw [List.cons_append, List.cons_append, lowHalf_slash_of_ne hc, lowHalf_slash_of_ne hc]
        exact ⟨rfl, fun k hk => by cases hk⟩
  · rw [List.cons_append, lowHalf_of_ne hs, lowHalf_of_ne hs]
    exact ⟨rfl, fun k hk => by cases hk⟩

/-- An escape by digits is read inside its string, and a second one with it if it needs one. -/
theorem escape_unit_append {k : Nat} (hk : unit? t = .ok k)
    (hrest : skipString (t.drop 4) = .ok rest) (y : Text) :
    escape? ('u' :: (t ++ y)) = escape? ('u' :: t) ∧ ∀ c m, escape? ('u' :: t) = .ok (c, m) →
      m ≤ t.length + 1 ∧ skipString (('u' :: t).drop m) = .ok rest := by
  obtain ⟨hlen, hunit⟩ := unit_append hk y
  obtain ⟨hlow, hbehind⟩ := lowHalf_append hrest y
  have hdrop : (t ++ y).drop 4 = t.drop 4 ++ y := List.drop_append_of_le_length hlen
  constructor
  · rw [escape?, escape?, hunit, hk, hdrop, hlow]
  · intro c m h
    rw [escape?] at h
    obtain ⟨_, -, h⟩ := bind_eq_ok_iff.mp h
    split at h
    · cases h
    split at h
    · obtain ⟨low, hl, h⟩ := bind_eq_ok_iff.mp h
      obtain ⟨-, rfl⟩ := Prod.mk.inj (Except.ok.inj h)
      obtain ⟨hlong, hskip⟩ := hbehind low hl
      rw [List.length_drop] at hlong
      rw [List.drop_drop] at hskip
      exact ⟨by omega, hskip⟩
    · obtain ⟨-, rfl⟩ := Prod.mk.inj (Except.ok.inj h)
      exact ⟨Nat.succ_le_succ hlen, hrest⟩

/-- An escape inside a string is read alike, whatever follows the string. -/
theorem escape_append {n : Nat} (hn : escapeLength? t = .ok n)
    (hrest : skipString (t.drop n) = .ok rest) (y : Text) :
    escape? (t ++ y) = escape? t ∧
      ∀ c m, escape? t = .ok (c, m) → m ≤ t.length ∧ skipString (t.drop m) = .ok rest := by
  cases t with
  | nil => cases hn
  | cons c cs =>
    by_cases hc : c = 'u'
    · subst hc
      -- skipping takes this escape alone, reading may take the next one with it
      obtain ⟨rfl, k, hk⟩ := escapeLength_unit hn
      exact escape_unit_append hk hrest y
    · rw [escapeLength_simple hc] at hn
      rw [List.cons_append, escape_simple hc, escape_simple hc]
      refine ⟨rfl, fun r m h => ?_⟩
      split at hn
      · obtain rfl := Except.ok.inj hn
        split at h
        · obtain ⟨-, rfl⟩ := Prod.mk.inj (Except.ok.inj h)
          exact ⟨Nat.succ_le_succ (Nat.zero_le _), hrest⟩
        · cases h
      · cases hn

/-- A string that can be skipped is read as it is, whatever follows: with its value or its fault. -/
theorem readString_append (h : skipString t = .ok rest) (y : Text) :
    readString (t ++ y) = (readString t).map fun p => (p.1, p.2 ++ y) := by
  refine string_induction h ?quote ?escape ?plain
  case quote => rfl
  case escape =>
    intro cs n hn hrest ih
    obtain ⟨hescape, hbehind⟩ := escape_append hn hrest y
    cases he : escape? cs with
    | error f =>
      -- the fault is that of the first escape without a value, so it is the same
      rw [List.cons_append, readString, readStringFrom, readStringFrom, hescape, he]
      rfl
    | ok p =>
      obtain ⟨c, m⟩ := p
      obtain ⟨hlen, hrest'⟩ := hbehind c m he
      rw [List.cons_append, readString, readString_escape (hescape.trans he), readString_escape he,
        readStringFrom_drop, readStringFrom_drop, List.drop_append_of_le_length hlen, ih m hrest']
      cases readString (cs.drop m) <;> rfl
  case plain =>
    intro c cs hq hs hc ih
    rw [List.cons_append, readString, readStringFrom, readStringFrom, if_neg hq, if_neg hs,
      if_neg hc, if_neg hq, if_neg hs, if_neg hc, ← readString, ih]
    cases readString cs <;> rfl

end Strings

/-! ## Numbers -/

section Numbers
variable {t rest : Text} (x : Text)

theorem takeWhile_digit_append (t : Text) :
    (t ++ '}' :: x).takeWhile Char.isDigit = t.takeWhile Char.isDigit := by
  induction t with
  | nil => rfl
  | cons c cs ih =>
    by_cases hc : c.isDigit
    · simp [hc, ih]
    · simp [hc]

theorem drop_digits_append (t : Text) :
    (t ++ '}' :: x).drop (t.takeWhile Char.isDigit).length =
      t.drop (t.takeWhile Char.isDigit).length ++ '}' :: x :=
  List.drop_append_of_le_length (List.takeWhile_sublist _).length_le

theorem drop_digits (t : Text) :
    t.drop (t.takeWhile Char.isDigit).length = t.dropWhile Char.isDigit := by
  have hdrop : (t.takeWhile Char.isDigit ++ t.dropWhile Char.isDigit).drop
      (t.takeWhile Char.isDigit).length = t.dropWhile Char.isDigit := List.drop_left
  rwa [List.takeWhile_append_dropWhile] at hdrop

/-- The brace is none of the characters that a number can go on with. -/
theorem not_headed_append {c : Char} (hc : c ≠ '}') (h : ∀ r, t = c :: r → False) (r : Text) :
    t ++ '}' :: x ≠ c :: r := by
  cases t with
  | nil => exact fun heq => hc (List.cons.inj heq).1.symm
  | cons d cs => exact fun heq => h cs (by rw [(List.cons.inj heq).1])

/-! ### Skipping them -/

theorem skipDigits_eq_ok (h : skipDigits t = .ok rest) :
    (t.takeWhile Char.isDigit).isEmpty = false ∧
      t.drop (t.takeWhile Char.isDigit).length = rest := by
  rw [skipDigits, ← drop_digits] at h
  split at h
  · cases h
  · next hdigits => exact ⟨Bool.eq_false_iff.mpr hdigits, Except.ok.inj h⟩

theorem skipDigits_append (h : skipDigits t = .ok rest) :
    skipDigits (t ++ '}' :: x) = .ok (rest ++ '}' :: x) := by
  obtain ⟨hdigits, hrest⟩ := skipDigits_eq_ok h
  rw [skipDigits, ← drop_digits, takeWhile_digit_append, if_neg (Bool.eq_false_iff.mp hdigits),
    drop_digits_append, hrest]

theorem skipExponent_append (h : skipExponent t = .ok rest) :
    skipExponent (t ++ '}' :: x) = .ok (rest ++ '}' :: x) := by
  fun_cases skipExponent t with
  | case1 t | case2 t => exact skipDigits_append x h
  | case3 t hplus hminus =>
    rw [skipExponent.eq_3 t hplus hminus] at h
    rw [skipExponent.eq_3 _ (not_headed_append x (by decide) hplus)
      (not_headed_append x (by decide) hminus)]
    exact skipDigits_append x h

/-- The parts of `skipNumber`, from the last one on. -/
def skipMark : Text → Except JsonFault Text
  | 'e' :: r | 'E' :: r => skipExponent r
  | r => .ok r

def skipPoint : Text → Except JsonFault Text
  | '.' :: r => skipDigits r >>= skipMark
  | 'e' :: r | 'E' :: r => skipExponent r
  | r => .ok r

def skipWhole : Text → Except JsonFault Text
  | '0' :: r => if (r.takeWhile Char.isDigit).isEmpty then .ok r else .error invalidNumber
  | t => skipDigits t

/-- A number is skipped part by part. -/
theorem skipNumber_eq (t : Text) : skipNumber t = skipWhole t >>= skipPoint := by
  fun_cases skipWhole t with
  | case2 r hr =>
    simp only [skipNumber, hr]
    rfl
  | case1 | case3 =>
    simp only [skipNumber, *]
    refine bind_congr fun rest => ?_
    fun_cases skipPoint rest with
    | case1 r =>
      refine bind_congr fun u => ?_
      fun_cases skipMark u with
      | case1 | case2 => rfl
      | case3 => simp only
    | case2 | case3 => rfl
    | case4 => simp only

theorem skipNumber_eq_ok_iff :
    skipNumber t = .ok rest ↔ ∃ u, skipWhole t = .ok u ∧ skipPoint u = .ok rest := by
  rw [skipNumber_eq]
  exact bind_eq_ok_iff

theorem skipMark_append (h : skipMark t = .ok rest) :
    skipMark (t ++ '}' :: x) = .ok (rest ++ '}' :: x) := by
  fun_cases skipMark t with
  | case1 r | case2 r => exact skipExponent_append x h
  | case3 _ hlow hhigh =>
    rw [skipMark.eq_3 _ hlow hhigh] at h
    rw [skipMark.eq_3 _ (not_headed_append x (by decide) hlow)
      (not_headed_append x (by decide) hhigh), Except.ok.inj h]

theorem skipPoint_append (h : skipPoint t = .ok rest) :
    skipPoint (t ++ '}' :: x) = .ok (rest ++ '}' :: x) := by
  fun_cases skipPoint t with
  | case1 r =>
    rw [skipPoint] at h
    obtain ⟨u, hu, hmark⟩ := bind_eq_ok_iff.mp h
    rw [List.cons_append, skipPoint, skipDigits_append x hu]
    exact skipMark_append x hmark
  | case2 r | case3 r => exact skipExponent_append x h
  | case4 _ hpoint hlow hhigh =>
    rw [skipPoint.eq_4 _ hpoint hlow hhigh] at h
    rw [skipPoint.eq_4 _ (not_headed_append x (by decide) hpoint)
      (not_headed_append x (by decide) hlow) (not_headed_append x (by decide) hhigh),
      Except.ok.inj h]

theorem skipWhole_append (h : skipWhole t = .ok rest) :
    skipWhole (t ++ '}' :: x) = .ok (rest ++ '}' :: x) := by
  fun_cases skipWhole t with
  | case1 r hr =>
    rw [skipWhole, if_pos hr] at h
    rw [List.cons_append, skipWhole, takeWhile_digit_append, if_pos hr, Except.ok.inj h]
  | case2 r hr =>
    rw [skipWhole, if_neg hr] at h
    cases h
  | case3 t hzero =>
    rw [skipWhole.eq_2 t hzero] at h
    rw [skipWhole.eq_2 _ (not_headed_append x (by decide) hzero)]
    exact skipDigits_append x h

theorem skipNumber_append (h : skipNumber t = .ok rest) :
    skipNumber (t ++ '}' :: x) = .ok (rest ++ '}' :: x) := by
  obtain ⟨u, hu, hpoint⟩ := skipNumber_eq_ok_iff.mp h
  exact skipNumber_eq_ok_iff.mpr ⟨_, skipWhole_append x hu, skipPoint_append x hpoint⟩

theorem skipWhole_eq_ok (h : skipWhole t = .ok rest) :
    (t.takeWhile Char.isDigit).isEmpty = false ∧
      t.drop (t.takeWhile Char.isDigit).length = rest := by
  fun_cases skipWhole t with
  | case1 r hr =>
    rw [skipWhole, if_pos hr] at h
    have hdigits : ('0' :: r).takeWhile Char.isDigit = ['0'] := by
      rw [List.takeWhile_cons_of_pos (by decide), List.isEmpty_iff.mp hr]
    rw [hdigits]
    exact ⟨rfl, Except.ok.inj h⟩
  | case2 r hr =>
    rw [skipWhole, if_neg hr] at h
    cases h
  | case3 t hzero =>
    rw [skipWhole.eq_2 t hzero] at h
    exact skipDigits_eq_ok h

/-! ### Reading them -/

/-- An exponent without a sign is read as one with a plus sign. -/
theorem readExponent_unsigned {isNegative : Bool} {n : Nat} {start : Int}
    (hplus : ∀ r, t = '+' :: r → False) (hminus : ∀ r, t = '-' :: r → False) :
    readExponent isNegative n start t = readExponent isNegative n start ('+' :: t) := by
  unfold readExponent
  simp only

theorem readExponent_signed_append {c : Char} (hc : c = '+' ∨ c = '-') (h : skipDigits t = .ok rest)
    (isNegative : Bool) (n : Nat) (start : Int) :
    (readExponent isNegative n start (c :: (t ++ '}' :: x))).map Prod.fst =
      (readExponent isNegative n start (c :: t)).map Prod.fst := by
  obtain ⟨hdigits, -⟩ := skipDigits_eq_ok h
  rcases hc with rfl | rfl
  all_goals
    simp only [readExponent, takeWhile_digit_append]
    generalize t.takeWhile Char.isDigit = digits at hdigits ⊢
    cases digits with
    | nil => cases hdigits
    | cons d ds =>
      dsimp only
      split
      · split <;> rfl
      · cases scaled n _ <;> rfl

theorem readExponent_append (h : skipExponent t = .ok rest) (isNegative : Bool) (n : Nat)
    (start : Int) : (readExponent isNegative n start (t ++ '}' :: x)).map Prod.fst =
      (readExponent isNegative n start t).map Prod.fst := by
  fun_cases skipExponent t with
  | case1 t => exact readExponent_signed_append x (.inl rfl) h isNegative n start
  | case2 t => exact readExponent_signed_append x (.inr rfl) h isNegative n start
  | case3 _ hplus hminus =>
    rw [skipExponent.eq_3 _ hplus hminus] at h
    rw [readExponent_unsigned hplus hminus, readExponent_unsigned
      (not_headed_append x (by decide) hplus) (not_headed_append x (by decide) hminus)]
    exact readExponent_signed_append x (.inl rfl) h isNegative n start

theorem readFraction_append {u : Text} (hu : skipDigits t = .ok u) (h : skipMark u = .ok rest)
    (isNegative : Bool) (n : Nat) (start : Int) :
    (readFraction isNegative n start (t ++ '}' :: x)).map Prod.fst =
      (readFraction isNegative n start t).map Prod.fst := by
  obtain ⟨hdigits, rfl⟩ := skipDigits_eq_ok hu
  unfold readFraction
  simp only [takeWhile_digit_append, drop_digits_append, hdigits]
  generalize t.drop (t.takeWhile Char.isDigit).length = r at h ⊢
  fun_cases skipMark r with
  | case1 r | case2 r => exact readExponent_append x h _ _ _
  | case3 _ hlow hhigh =>
    have hlow' := not_headed_append x (by decide) hlow
    have hhigh' := not_headed_append x (by decide) hhigh
    -- neither text goes on with an exponent
    simp only
    cases scaled _ _ <;> rfl

/-- A number that can be skipped is read alike with a closing brace behind it. -/
theorem readNumber_append (h : skipNumber t = .ok rest) (isNegative : Bool) :
    (readNumber isNegative (t ++ '}' :: x)).map Prod.fst =
      (readNumber isNegative t).map Prod.fst := by
  obtain ⟨u, hu, hpoint⟩ := skipNumber_eq_ok_iff.mp h
  obtain ⟨hdigits, rfl⟩ := skipWhole_eq_ok hu
  unfold readNumber
  simp only [takeWhile_digit_append, drop_digits_append]
  generalize t.drop (t.takeWhile Char.isDigit).length = r at hpoint ⊢
  generalize t.takeWhile Char.isDigit = digits at hdigits ⊢
  split
  · cases hdigits
  · rfl
  · fun_cases skipPoint r with
    | case1 r =>
      rw [skipPoint] at hpoint
      obtain ⟨u, hu, hmark⟩ := bind_eq_ok_iff.mp hpoint
      exact readFraction_append x hu hmark _ _ _
    | case2 r | case3 r => exact readExponent_append x hpoint _ _ _
    | case4 _ hpoint hlow hhigh =>
      have hpoint' := not_headed_append x (by decide) hpoint
      have hlow' := not_headed_append x (by decide) hlow
      have hhigh' := not_headed_append x (by decide) hhigh
      -- both texts end behind the whole part
      simp only
      split
      · cases wholeNumber isNegative _ <;> rfl
      · cases scaled _ _ <;> rfl

end Numbers

end LedgerExport.Json
