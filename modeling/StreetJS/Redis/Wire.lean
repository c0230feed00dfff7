/-
Which redirect is read from the text of a MOVED or an ASK, and which number from the text of an integer.
-/
import StreetJS.Redis.ClusterClient

namespace StreetJS.Redis

open List

/-! ## Digits -/

theorem not_isSpace_of_isDigit {c : Char} (h : c.isDigit) : isSpace c = false := by
  have hc : 48 ≤ c.toNat ∧ c.toNat ≤ 57 := by
    simp only [Char.isDigit, Bool.and_eq_true, decide_eq_true_eq] at h
    exact h
  have hne : ¬ c.toNat ∈ [0x20, 0xa0, 0x1680, 0x2028, 0x2029, 0x202f, 0x205f, 0x3000, 0xfeff] := by
    simp only [mem_cons, not_mem_nil, or_false]
    omega
  simp only [isSpace, Bool.or_eq_false_iff, Bool.and_eq_false_iff, decide_eq_false_iff_not, contains_eq_mem, hne, not_false_eq_true, and_true]
  omega

theorem not_isLineTerminator_of_isDigit {c : Char} (h : c.isDigit) : isLineTerminator c = false := by
  have hc : 48 ≤ c.toNat ∧ c.toNat ≤ 57 := by
    simp only [Char.isDigit, Bool.and_eq_true, decide_eq_true_eq] at h
    exact h
  simp only [isLineTerminator, contains_eq_mem, decide_eq_false_iff_not, mem_cons, not_mem_nil, or_false]
  omega

theorem isDigit_toDigits {n : Nat} {c : Char} (h : c ∈ Nat.toDigits 10 n) : c.isDigit :=
  Nat.isDigit_of_mem_toDigits (by decide) (by decide) h

theorem trim_eq {s : Text} (hhead : ∀ c ∈ s.head?, isSpace c = false) (hlast : ∀ c ∈ s.getLast?, isSpace c = false) : trim s = s := by
  have hdrop : ∀ {s : Text}, (∀ c ∈ s.head?, isSpace c = false) → s.dropWhile isSpace = s := by
    rintro (_ | ⟨c, s⟩) h
    · rfl
    · rw [dropWhile_cons_of_neg (by simpa using h)]
  rw [trim, hdrop hhead, hdrop (by rwa [head?_reverse]), reverse_reverse]

theorem decimalLiteral_digits {ds : Text} (hne : ds ≠ []) (hall : ∀ c ∈ ds, c.isDigit) :
    decimalLiteral ds = some (Nat.ofDigitChars 10 ds 0 : Int) := by
  have htake : ds.takeWhile Char.isDigit = ds := takeWhile_eq_self_iff.2 hall
  have hdrop : ds.dropWhile Char.isDigit = [] := dropWhile_eq_nil_iff.2 hall
  simp [decimalLiteral, htake, hdrop, hne, exponent]

theorem number_digits {ds : Text} (hne : ds ≠ []) (hall : ∀ c ∈ ds, c.isDigit) : number ds = some (Nat.ofDigitChars 10 ds 0 : Int) := by
  have htrim : trim ds = ds :=
    trim_eq (fun c hc => not_isSpace_of_isDigit (hall c (mem_of_mem_head? hc)))
      fun c hc => not_isSpace_of_isDigit (hall c (mem_of_mem_getLast? hc))
  -- No sign and no letter of another base is among digits.
  unfold number
  rw [htrim]
  split
  · exact absurd rfl hne
  · exact absurd (hall '-' (by simp)) (by decide)
  · exact absurd (hall '+' (by simp)) (by decide)
  · exact absurd (hall 'x' (by simp)) (by decide)
  · exact absurd (hall 'X' (by simp)) (by decide)
  · exact absurd (hall 'o' (by simp)) (by decide)
  · exact absurd (hall 'O' (by simp)) (by decide)
  · exact absurd (hall 'b' (by simp)) (by decide)
  · exact absurd (hall 'B' (by simp)) (by decide)
  · exact decimalLiteral_digits hne hall

@[simp] theorem number_toDigits (n : Nat) : number (Nat.toDigits 10 n) = some (n : Int) := by
  rw [number_digits Nat.toDigits_ne_nil fun c => isDigit_toDigits, Nat.ofDigitChars_ten_toDigits]

/-! ## Redirects -/

/-- A host that a redirect may name. -/
def HostOk (host : Text) : Prop :=
  host ≠ [] ∧ (∀ c ∈ host.head?, isSpace c = false) ∧ ∀ c ∈ host, isLineTerminator c = false

instance (host : Text) : Decidable (HostOk host) :=
  decidable_of_iff (host ≠ [] ∧ (host.head?.all fun c => !isSpace c) = true ∧ (host.all fun c => !isLineTerminator c) = true) (by
    unfold HostOk
    simp only [Option.all_eq_true, all_eq_true, Bool.not_eq_true', Option.mem_def])

theorem takeWhile_cons_stop {p : Char → Bool} {s : Text} {c : Char} (hs : ∀ d ∈ s, p d) (hc : p c = false) (u : Text) :
    (s ++ c :: u).takeWhile p = s ∧ (s ++ c :: u).dropWhile p = c :: u := by
  constructor
  · rw [takeWhile_append_of_pos hs, takeWhile_cons_of_neg (by simp [hc]), append_nil]
  · rw [dropWhile_append_of_pos hs, dropWhile_cons_of_neg (by simp [hc])]

theorem parseEndpoint_host (kind : RedirectKind) (slot : Int) {host : Text} (h : host ≠ []) (port : Nat) :
    parseEndpoint kind slot (host ++ ':' :: Nat.toDigits 10 port) = some { kind, slot, node := { host, port } } := by
  have hcolon : ∀ c ∈ (Nat.toDigits 10 port).reverse, (decide (c ≠ ':')) = true := by
    intro c hc
    have hd := isDigit_toDigits (mem_reverse.1 hc)
    rw [decide_eq_true_eq]
    rintro rfl
    exact absurd hd (by decide)
  have hreverse : (host ++ ':' :: Nat.toDigits 10 port).reverse = (Nat.toDigits 10 port).reverse ++ ':' :: host.reverse := by
    simp
  obtain ⟨htake, hdrop⟩ := takeWhile_cons_stop hcolon (c := ':') (by decide) host.reverse
  simp only [parseEndpoint, hreverse, htake, hdrop, reverse_reverse, drop_succ_cons, drop_zero, number_toDigits, Option.map_some]
  rw [if_pos ⟨by simp, h⟩]

theorem parseTarget_target (kind : RedirectKind) (slot : Nat) {host : Text} (h : HostOk host) (port : Nat) :
    parseTarget kind (Reply.target slot host port) = some { kind, slot, node := { host, port } } := by
  obtain ⟨hne, hhead, hlines⟩ := h
  obtain ⟨c, host, rfl⟩ := exists_cons_of_ne_nil hne
  have hc : isSpace c = false := hhead c rfl
  have hdigits : ∀ d ∈ Nat.toDigits 10 slot, d.isDigit := fun d => isDigit_toDigits
  obtain ⟨d, ds, hd⟩ := exists_cons_of_ne_nil (Nat.toDigits_ne_nil (n := slot) (b := 10))
  have hspace : isSpace d = false := not_isSpace_of_isDigit (hdigits d (by simp [hd]))
  have hend : ((c :: host) ++ ':' :: Nat.toDigits 10 port).any isLineTerminator = false := by
    rw [any_eq_false]
    intro x hx
    rcases mem_append.1 hx with hx | hx
    · simp [hlines x hx]
    rcases mem_cons.1 hx with rfl | hx
    · decide
    · simp [not_isLineTerminator_of_isDigit (isDigit_toDigits hx)]
  -- The spaces, the digits and the spaces again are taken off in turn.
  have hslot : (Reply.target slot (c :: host) port).dropWhile isSpace =
      Nat.toDigits 10 slot ++ ' ' :: ((c :: host) ++ ':' :: Nat.toDigits 10 port) := by
    rw [Reply.target, dropWhile_cons_of_pos (by decide), hd, cons_append, dropWhile_cons_of_neg (by simp [hspace])]
  obtain ⟨htake, hdrop⟩ := takeWhile_cons_stop hdigits (c := ' ') (by decide) ((c :: host) ++ ':' :: Nat.toDigits 10 port)
  have hendpoint : (' ' :: ((c :: host) ++ ':' :: Nat.toDigits 10 port)).dropWhile isSpace = (c :: host) ++ ':' :: Nat.toDigits 10 port := by
    rw [dropWhile_cons_of_pos (by decide), cons_append, dropWhile_cons_of_neg (by simp [hc])]
  have hlead : (Reply.target slot (c :: host) port).takeWhile isSpace ≠ [] := by
    exact cons_ne_nil _ _
  have hgap : (' ' :: ((c :: host) ++ ':' :: Nat.toDigits 10 port)).takeWhile isSpace ≠ [] := by
    exact cons_ne_nil _ _
  simp only [parseTarget, hslot, htake, hdrop, hendpoint, hend]
  rw [if_pos ⟨hlead, Nat.toDigits_ne_nil, hgap, by simp, rfl⟩, number_toDigits, Option.bind_some,
    parseEndpoint_host kind slot (cons_ne_nil c host)]

theorem getLast?_target (slot : Nat) (host : Text) (port : Nat) :
    ∃ c : Char, c.isDigit ∧ (Reply.target slot host port).getLast? = some c := by
  obtain ⟨ds, d, hd⟩ := eq_nil_or_concat (Nat.toDigits 10 port) |>.resolve_left Nat.toDigits_ne_nil
  refine ⟨d, isDigit_toDigits (n := port) (by simp [hd]), ?_⟩
  have : Reply.target slot host port = (' ' :: (Nat.toDigits 10 slot ++ ' ' :: (host ++ ':' :: ds))) ++ [d] := by
    simp [Reply.target, hd]
  rw [this, getLast?_concat]

theorem redirectOf_redirect {r : Reply} {redirect : Redirect} (hr : r.redirect = some redirect)
    (hhost : HostOk redirect.node.host) : redirectOf r.value = some redirect := by
  have htrim : ∀ (c : Char) (s : Text) (slot : Nat) (host : Text) (port : Nat), isSpace c = false →
      trim (c :: (s ++ Reply.target slot host port)) = c :: (s ++ Reply.target slot host port) := by
    intro c s slot host port hc
    obtain ⟨d, hd, hlast⟩ := getLast?_target slot host port
    refine trim_eq (by simpa using hc) ?_
    rw [← cons_append, getLast?_append, hlast]
    simpa using not_isSpace_of_isDigit hd
  cases r with
  | moved slot host port =>
    obtain rfl : ({ kind := .moved, slot, node := { host, port } } : Redirect) = redirect := Option.some.inj hr
    have h := htrim 'M' ['O', 'V', 'E', 'D'] slot host port (by decide)
    simp only [cons_append, nil_append] at h
    simp only [Reply.value, Reply.message, Option.getD_some, redirectOf, parseRedirect, h]
    exact parseTarget_target .moved slot hhost port
  | ask slot host port =>
    obtain rfl : ({ kind := .ask, slot, node := { host, port } } : Redirect) = redirect := Option.some.inj hr
    have h := htrim 'A' ['S', 'K'] slot host port (by decide)
    simp only [cons_append, nil_append] at h
    simp only [Reply.value, Reply.message, Option.getD_some, redirectOf, parseRedirect, h]
    exact parseTarget_target .ask slot hhost port
  | _ => cases hr

/-! ## Integers -/

def integerText (n : Int) : Text :=
  if n < 0 then '-' :: Nat.toDigits 10 n.natAbs else Nat.toDigits 10 n.natAbs

theorem number_integerText (n : Int) : number (integerText n) = some n := by
  rw [integerText]
  split
  case isTrue hn =>
    have hds : ∀ c ∈ Nat.toDigits 10 n.natAbs, c.isDigit := fun c => isDigit_toDigits
    have htrim : trim ('-' :: Nat.toDigits 10 n.natAbs) = '-' :: Nat.toDigits 10 n.natAbs := by
      refine trim_eq (by simp; decide) fun c hc => ?_
      rcases mem_cons.1 (mem_of_mem_getLast? hc) with rfl | hc
      · decide
      · exact not_isSpace_of_isDigit (hds c hc)
    have hdecimal := decimalLiteral_digits Nat.toDigits_ne_nil hds
    rw [Nat.ofDigitChars_ten_toDigits] at hdecimal
    simp only [number, htrim, hdecimal, Option.map_some, Option.some.injEq]
    change -(n.natAbs : Int) = n
    omega
  case isFalse hn =>
    rw [number_toDigits, Option.some.injEq]
    omega

end StreetJS.Redis
