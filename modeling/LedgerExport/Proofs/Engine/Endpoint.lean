import LedgerExport.Engine.Endpoint
import LedgerExport.Proofs.Engine.Host
import LedgerExport.Proofs.Steps
import LedgerExport.Proofs.Text.Numeral
import LedgerExport.Proofs.Text.Replacement

/-! # Where an address leads

The server goes into the address as it is, and the port behind it. While no mark in the server ends
the name of the host, an address that is read has that port and the path `/`. Where such a mark ends
a name that can be read, what was meant as the port goes into the path, the query or the fragment.
The main statement is `readWith_configured_iff`, for every way to read hosts.
-/
namespace LedgerExport.Engine
open Text

section Paths

theorem not_dots_of_colon {s : Text} (h : ':' ∈ s) : isDot s = false ∧ isDotDot s = false := by
  have hlower : ':' ∈ s.map Char.toLower := List.mem_map.mpr ⟨':', h, rfl⟩
  have hno (l : List Text) (hl : ∀ d ∈ l, ':' ∉ d) : l.contains (s.map Char.toLower) = false := by
    apply Bool.eq_false_iff.mpr
    intro hmem
    exact hl _ (List.contains_iff_mem.mp hmem) hlower
  exact ⟨hno dots (by decide), hno _ (by decide)⟩

theorem mem_followDots {s : Text} (hs : isDot s = false ∧ isDotDot s = false)
    (segments : List Text) : s ∈ followDots (segments ++ [s, []]) := by
  have hstep (place : List Text) : stepTo place s = place ++ [s] := by
    rw [stepTo, hs.1, hs.2]
    rfl
  have hend (place : List Text) : stepTo place [] = place ++ [[]] := rfl
  rw [followDots, List.foldl_append, List.foldl_cons, List.foldl_cons, List.foldl_nil, hstep, hend]
  apply List.mem_append_left
  apply List.mem_append_left
  exact List.mem_append_right _ List.mem_cons_self

variable {w : Text}

/-- The last segment but one of a path is kept if it has a colon. -/
theorem colon_mem_readPath (hw : ∀ c ∈ w, isSlash c = false) (hcolon : ':' ∈ w) (first : Char)
    (x : Text) : ':' ∈ readPath (first :: (x ++ w ++ ['/'])) := by
  have hmap : w.map (fun c => if isSlash c then '/' else c) = w := by
    conv_rhs => rw [← List.map_id w]
    apply List.map_congr_left
    intro c hc
    rw [hw c hc]
    rfl
  have hslash : '/' ∉ w := fun h => absurd (hw '/' h) (by decide)
  obtain ⟨pieces, last, hsplit⟩ :=
    splitOn_append_of_not_mem hslash (x.map fun c => if isSlash c then '/' else c)
  have hseg : ':' ∈ escapeBytes isPathChar (last ++ w) :=
    List.mem_flatMap.mpr ⟨':', List.mem_append_right last hcolon, List.mem_singleton.mpr rfl⟩
  have hpath : readPath (first :: (x ++ w ++ ['/'])) =
      (followDots (pieces.map (escapeBytes isPathChar) ++
        [escapeBytes isPathChar (last ++ w), []])).flatMap ('/' :: ·) := by
    rw [readPath, List.drop_one, List.tail_cons, List.map_append, List.map_append, hmap]
    change (followDots ((splitOn ['/'] (_ ++ w ++ '/' :: [])).map _)).flatMap _ = _
    rw [splitOn_append_cons, hsplit, List.map_append, List.map_append, List.append_assoc]
    rfl
  rw [hpath]
  exact List.mem_flatMap.mpr
    ⟨_, mem_followDots (not_dots_of_colon hseg) _, List.mem_cons_of_mem '/' hseg⟩

theorem takeWhile_eq_self_of_tail? {p : Char → Bool} {t : Text}
    (h : (t.drop (t.takeWhile p).length).tail? = none) : t.takeWhile p = t := by
  have hnil : t.drop (t.takeWhile p).length = [] := by
    cases hdrop : t.drop (t.takeWhile p).length with
    | nil => rfl
    | cons c cs =>
      rw [hdrop] at h
      cases h
  exact (List.takeWhile_prefix p).eq_of_length_le (List.drop_eq_nil_iff.mp hnil)

theorem readTail_ne_root (hw : ∀ c ∈ w, isSlash c = false) (hcolon : ':' ∈ w) (first : Char)
    (x : Text) : Endpoint.readTail (first :: (x ++ w ++ ['/'])) ≠ (['/'], none, none) := by
  intro h
  obtain ⟨hpath, hrest⟩ := Prod.mk.inj h
  obtain ⟨hquery, hfragment⟩ := Prod.mk.inj hrest
  have hfront := takeWhile_eq_self_of_tail? (Option.map_eq_none_iff.mp hfragment)
  rw [hfront] at hpath hquery
  rw [takeWhile_eq_self_of_tail? (Option.map_eq_none_iff.mp hquery)] at hpath
  have hmem := colon_mem_readPath hw hcolon first x
  rw [hpath] at hmem
  exact absurd hmem (by decide)

end Paths

namespace Endpoint
variable {host : Text → Except HostFault Host} {server : Text} {port : UInt16}

section Authority
variable {digits : Text}

theorem afterLastAt_append {tail : Text} (ht : '@' ∉ tail) (a : Text) :
    ∃ b, afterLastAt (a ++ tail) = b ++ tail := by
  induction a with
  | nil =>
    refine ⟨[], ?_⟩
    cases tail with
    | nil => rfl
    | cons c cs =>
      have hcs : cs.contains '@' = false :=
        Bool.eq_false_iff.mpr fun h => ht (List.mem_cons_of_mem c (List.contains_iff_mem.mp h))
      have hc : c ≠ '@' := fun h => ht (h ▸ List.mem_cons_self)
      rw [List.nil_append, afterLastAt, hcs, if_neg Bool.false_ne_true, if_neg hc]
  | cons c cs ih =>
    rw [List.cons_append, afterLastAt]
    split
    · exact ih
    · split
      · exact ⟨cs, rfl⟩
      · exact ⟨c :: cs, rfl⟩

theorem hostPart_of_not_mem {t : Text} (h : ':' ∉ t) (inside : Bool) : hostPart inside t = t := by
  induction t generalizing inside with
  | nil => cases inside <;> rfl
  | cons c cs ih =>
    have hc : c ≠ ':' := fun heq => h (heq ▸ List.mem_cons_self)
    rw [hostPart, ih (List.not_mem_of_not_mem_cons h), if_neg]
    simp [hc]

/-- The name ends at a colon of the server, at the colon behind the server, or not at all. -/
theorem hostPart_cases (hd : ':' ∉ digits) (inside : Bool) (a : Text) :
    (∃ rest, a = hostPart inside (a ++ ':' :: digits) ++ ':' :: rest) ∨
      hostPart inside (a ++ ':' :: digits) = a ∨
      hostPart inside (a ++ ':' :: digits) = a ++ ':' :: digits := by
  induction a generalizing inside with
  | nil =>
    cases inside with
    | false => exact Or.inr (Or.inl rfl)
    | true =>
      refine Or.inr (Or.inr ?_)
      rw [List.nil_append, hostPart, hostPart_of_not_mem hd]
      rfl
  | cons c cs ih =>
    rw [List.cons_append, hostPart]
    split
    next h =>
      rw [Bool.and_eq_true, decide_eq_true_eq] at h
      exact Or.inl ⟨cs, by rw [h.1]; rfl⟩
    next =>
      rcases ih (if c = '[' then true else if c = ']' then false else inside) with
        ⟨rest, h⟩ | h | h
      · exact Or.inl ⟨rest, congrArg (c :: ·) h⟩
      · exact Or.inr (Or.inl (congrArg (c :: ·) h))
      · exact Or.inr (Or.inr (congrArg (c :: ·) h))

theorem readPort_decimal (port : UInt16) : readPort (decimal port.toNat) = .ok port.toNat := by
  have hlt : port.toNat < 65536 := port.toNat_lt
  have hdigits : (decimal port.toNat).all Char.isDigit = true :=
    List.all_eq_true.mpr fun c hc => isDigit_of_mem_decimal hc
  rw [readPort.eq_def]
  split
  next h => exact absurd h Nat.toDigits_ne_nil
  next =>
    rw [hdigits, digitsValue_decimal, if_pos]
    rw [Bool.true_and, decide_eq_true_eq]
    omega

theorem not_mem_of_readPort {t : Text} {p : Nat} (h : readPort t = .ok p) : ':' ∉ t := by
  intro hmem
  rw [readPort.eq_def] at h
  split at h
  next => cases hmem
  next =>
    split at h
    next hdigits =>
      rw [Bool.and_eq_true, List.all_eq_true] at hdigits
      exact absurd (hdigits.1 ':' hmem) (by decide)
    next => cases h

/-- The host is read up to the colon and the port behind it. -/
theorem of_readAuthority {t : Text} {r : Host × Nat} (h : readAuthority host t = .ok r) :
    host (hostPart false (afterLastAt t)) = .ok r.1 ∧
      readPort (((afterLastAt t).drop (hostPart false (afterLastAt t)).length).drop 1) =
        .ok r.2 := by
  rw [readAuthority] at h
  split at h
  · cases h
  · cases hhost : host (hostPart false (afterLastAt t)) with
    | error fault =>
      rw [hhost] at h
      cases h
    | ok name =>
      cases hport : readPort
          (((afterLastAt t).drop (hostPart false (afterLastAt t)).length).drop 1) with
      | error fault =>
        rw [hhost, hport] at h
        cases h
      | ok p =>
        rw [hhost, hport] at h
        cases h
        exact ⟨rfl, rfl⟩

/-- No character of a port ends a part of an address, and none is left out. -/
theorem plain_of_mem_port {c : Char} (hc : c ∈ ':' :: decimal port.toNat) :
    (endsAuthority c = false ∧ isSlash c = false ∧ isIgnored c = false) ∧ c ≠ '@' ∧ c ≠ ']' := by
  rcases List.mem_cons.mp hc with rfl | hc
  · decide
  · have hne (d : Char) (hd : d.isDigit = false) : c ≠ d := by
      rintro rfl
      exact Bool.false_ne_true (hd.symm.trans (isDigit_of_mem_decimal hc))
    simp [endsAuthority, isSlash, isIgnored, hne]

/-- A host that is read behind a server has the port that stands there. -/
theorem port_of_readAuthority (hhost : Bracketed host) {r : Host × Nat}
    (h : readAuthority host (server ++ ':' :: decimal port.toNat) = .ok r) :
    r.2 = port.toNat := by
  have hcolon : ':' ∉ decimal port.toNat :=
    fun hc => absurd (isDigit_of_mem_decimal hc) (by decide)
  obtain ⟨hname, hport⟩ := of_readAuthority h
  obtain ⟨a, ha⟩ := afterLastAt_append (fun hc => (plain_of_mem_port hc).2.1 rfl) server
  rw [ha] at hname hport
  rcases hostPart_cases hcolon false a with ⟨rest, hrest⟩ | hall | hall
  · -- what stands behind the colon of the server has one colon more, so it is no port
    generalize hostPart false (a ++ ':' :: decimal port.toNat) = name at hrest hport
    subst hrest
    rw [List.append_assoc, List.drop_left] at hport
    exact absurd (List.mem_append_right rest List.mem_cons_self) (not_mem_of_readPort hport)
  · rw [hall, List.drop_left, List.drop_one, List.tail_cons, readPort_decimal] at hport
    exact (Except.ok.inj hport).symm
  · -- a bracket is open before the port, and nothing closes it
    rw [hall] at hname
    have hlast := (hhost _ _ hname (List.mem_append_right a List.mem_cons_self)).2
    rw [List.getLast?_append_cons] at hlast
    exact absurd rfl (plain_of_mem_port (List.mem_of_getLast? hlast)).2.2

end Authority

section Addresses

def withTail (tail : Text) (r : Host × Nat) : Endpoint :=
  ⟨r.1, r.2, (readTail tail).1, (readTail tail).2.1, (readTail tail).2.2⟩

/-- The address has the port, and it asks for nothing but the root. -/
structure Configured (port : UInt16) (e : Endpoint) : Prop where
  port : e.port = port.toNat
  path : e.path = ['/']
  query : e.query = none
  fragment : e.fragment = none

/-- A server without what counts for nothing: tabs, line ends, and slashes in front. -/
def bare (server : Text) : Text := (server.filter fun c => !isIgnored c).dropWhile isSlash

/-- A mark in the server ends a name that can be read. -/
def EndsEarly (host : Text → Except HostFault Host) (server : Text) : Prop :=
  ∃ front mark rest, bare server = front ++ mark :: rest ∧
    (∀ c ∈ front, endsAuthority c = false) ∧ endsAuthority mark = true ∧
    ∃ r, readAuthority host front = .ok r

theorem readAddress_append {front rest : Text} {mark : Char}
    (hfront : ∀ c ∈ front, endsAuthority c = false) (hmark : endsAuthority mark = true) :
    readAddress host (front ++ mark :: rest) =
      (readAuthority host front).map (withTail (mark :: rest)) := by
  have htake : (front ++ mark :: rest).takeWhile (fun c => !endsAuthority c) = front := by
    rw [List.takeWhile_append_of_pos (fun c hc => by rw [hfront c hc]; rfl),
      List.takeWhile_cons_of_neg (by rw [hmark]; decide), List.append_nil]
  rw [readAddress, htake, List.drop_left]
  cases readAuthority host front <;> rfl

/-- What counts for nothing in an address stands in the server alone, so the port comes behind the
bare server. -/
theorem readWith_eq (host : Text → Except HostFault Host) (server : Text) (port : UInt16) :
    readWith host server port =
      readAddress host (bare server ++ (':' :: decimal port.toNat ++ ['/'])) := by
  have hkeep : (':' :: decimal port.toNat ++ ['/']).filter (fun c => !isIgnored c) =
      ':' :: decimal port.toNat ++ ['/'] := by
    apply List.filter_eq_self.mpr
    intro c hc
    rcases List.mem_append.mp hc with hc | hc
    · rw [(plain_of_mem_port hc).1.2.2]
      rfl
    · rw [List.mem_singleton.mp hc]
      rfl
  rw [readWith, address, List.append_assoc, List.filter_append, hkeep, List.dropWhile_append, bare]
  split
  next hempty =>
    rw [List.isEmpty_iff.mp hempty]
    rfl
  next => rfl

theorem readWith_early {front rest : Text} {mark : Char}
    (hbare : bare server = front ++ mark :: rest)
    (hfront : ∀ c ∈ front, endsAuthority c = false) (hmark : endsAuthority mark = true) :
    readWith host server port = (readAuthority host front).map
      (withTail (mark :: (rest ++ ':' :: decimal port.toNat ++ ['/']))) := by
  rw [readWith_eq, hbare, List.append_assoc, List.cons_append, ← List.append_assoc]
  exact readAddress_append hfront hmark

theorem readWith_whole (h : ∀ c ∈ bare server, endsAuthority c = false) :
    readWith host server port =
      (readAuthority host (bare server ++ ':' :: decimal port.toNat)).map (withTail ['/']) := by
  rw [readWith_eq, ← List.append_assoc]
  refine readAddress_append ?_ (by decide)
  intro c hc
  rcases List.mem_append.mp hc with hc | hc
  · exact h c hc
  · exact (plain_of_mem_port hc).1.1

theorem not_configured_withTail (port : UInt16) (mark : Char) (rest : Text) (r : Host × Nat) :
    ¬ Configured port (withTail (mark :: (rest ++ ':' :: decimal port.toNat ++ ['/'])) r) := by
  rintro ⟨-, hpath, hquery, hfragment⟩
  have hslash : ∀ c ∈ ':' :: decimal port.toNat, isSlash c = false :=
    fun c hc => (plain_of_mem_port hc).1.2.1
  exact readTail_ne_root hslash List.mem_cons_self mark rest
    (Prod.ext hpath (Prod.ext hquery hfragment))

/-- Addresses lead to the port and the root that were meant, except for servers that end early. -/
theorem readWith_configured_iff (hhost : Bracketed host) (server : Text) (port : UInt16) :
    (∀ e, readWith host server port = .ok e → Configured port e) ↔ ¬ EndsEarly host server := by
  constructor
  · rintro h ⟨front, mark, rest, hbare, hfront, hmark, r, hr⟩
    apply not_configured_withTail port mark rest r
    apply h
    rw [readWith_early hbare hfront hmark, hr]
    rfl
  · intro hearly e hread
    cases hfind : (bare server).find? endsAuthority with
    | some mark =>
      obtain ⟨hmark, front, rest, hbare, hbefore⟩ := List.find?_eq_some_iff_append.mp hfind
      have hfront : ∀ c ∈ front, endsAuthority c = false := fun c hc => by simpa using hbefore c hc
      rw [readWith_early hbare hfront hmark] at hread
      obtain ⟨r, hr, -⟩ := map_eq_ok_iff.mp hread
      exact absurd ⟨front, mark, rest, hbare, hfront, hmark, r, hr⟩ hearly
    | none =>
      rw [readWith_whole fun c hc => by simpa using List.find?_eq_none.mp hfind c hc] at hread
      obtain ⟨r, hr, rfl⟩ := map_eq_ok_iff.mp hread
      exact ⟨port_of_readAuthority hhost hr, rfl, rfl, rfl⟩

/-- Slashes and a tab in front, a name for the user, and an address in brackets. -/
theorem read_loopback :
    read "//\tme:x@[::1]".toList 9000 = .ok ⟨.ipv6 "::1".toList, 9000, "/".toList, none, none⟩ ∧
      ∀ e, read "//\tme:x@[::1]".toList 9000 = .ok e → Configured 9000 e := by
  refine ⟨by rfl, (readWith_configured_iff Host.bracketed_parse _ _).mpr ?_⟩
  rintro ⟨front, mark, rest, hbare, -, hmark, -⟩
  have hplain : ∀ c ∈ bare "//\tme:x@[::1]".toList, endsAuthority c = false :=
    forall_mem_of_all (by decide)
  have hmem : mark ∈ bare "//\tme:x@[::1]".toList :=
    hbare ▸ List.mem_append_right front List.mem_cons_self
  exact Bool.false_ne_true ((hplain mark hmem).symm.trans hmark)

/-- A slash behind the name sends the port into the path. -/
theorem not_read_configured :
    ¬ ∀ server port e, read server port = .ok e → Configured port e := by
  intro h
  have hread : read "a/b".toList 9000 =
      .ok ⟨.domain "a".toList, 80, "/b:9000/".toList, none, none⟩ := by decide +kernel
  exact absurd (h _ _ _ hread).port (by decide)

end Addresses
end Endpoint

end LedgerExport.Engine
