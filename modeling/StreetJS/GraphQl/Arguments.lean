/-
The text of arguments with mentions of variables: where every mention is the value of an argument, the scanner of
arguments finds the same arguments in every rendering, each mention as one value.
-/
import StreetJS.GraphQl.Skeleton

namespace StreetJS.GraphQl

open StreetJS.Lib List

/-! ## Reading arguments around mentions -/

inductive ArgText where
  | lit (raw : QueryText)
  | var (name : QueryText)

def ArgText.text (f : QueryText → QueryText) : ArgText → QueryText
  | .lit raw => raw
  | .var name => f name

/-- The characters before the first mention. -/
def leadText : List Mark → QueryText
  | .ch c :: ms => c :: leadText ms
  | _ => []

/-- Behind a value there is no character of a word and no decimal point. -/
def endsValue (ms : List Mark) : Bool :=
  match ms with
  | [] => true
  | .ch c :: _ => !isWord c && c != '.'
  | .mention _ :: _ => false

inductive ArgStep where
  | skip
  | arg (key : QueryText) (value : ArgText) (n : Nat)
  | stuck

/-- Behind the colon of an argument: the mention is the value, or a value ends well before the mention. -/
def valueStep (key : QueryText) (length : Nat) (value name : QueryText) (rest : List Mark) : ArgStep :=
  if value = [] then if endsValue rest then .arg key (.var name) length else .stuck
  else
    match valueAt value with
    | some raw =>
      if raw.length + 1 < value.length then .arg key (.lit raw) (length - value.length + raw.length - 1) else .stuck
    | none => if value.head? = some '"' ∨ value.length < 2 then .stuck else .skip

/-- Before a mention of `name`. -/
def keyStep (lead name : QueryText) (rest : List Mark) : ArgStep :=
  if lead.takeWhile isWord = [] then .skip
  else
    match (lead.dropWhile isWord).dropWhile isSpace with
    | [] => .stuck
    | c :: r =>
      if c = ':' then valueStep (lead.takeWhile isWord) lead.length (r.dropWhile isSpace) name rest else .skip

/-- What the scanner does at the head of a text, as far as it does not depend on what stands for the mentions. -/
def argStep (c : Char) (ms : List Mark) : ArgStep :=
  match ms.drop (leadText ms).length with
  | .mention name :: rest => keyStep (c :: leadText ms) name rest
  | _ =>
    match argAt (c :: leadText ms) with
    | some ((key, raw), n) => .arg key (.lit raw) n
    | none => .skip

/-- The arguments, where every mention is the value of one. -/
def readContent : Nat → List Mark → Option (List (QueryText × ArgText))
  | _, [] => some []
  | n + 1, _ :: ms => readContent n ms
  | 0, .mention _ :: _ => none
  | 0, .ch c :: ms =>
    match argStep c ms with
    | .skip => readContent 0 ms
    | .arg key value n => (readContent n ms).map ((key, value) :: ·)
    | .stuck => none

/-- A text that the scanner takes as one value, wherever the value may end. -/
structure ValueText (text : QueryText) : Prop where
  head : ∃ c ∈ text.head?, isSpace c = false
  value : ∀ rest : QueryText, (∀ c ∈ rest.head?, isWord c = false ∧ c ≠ '.') → valueAt (text ++ rest) = some text

/-! ## Values and what stands behind them -/

variable {s : QueryText}

theorem takeWhile_append_of_stop {p : Char → Bool} (h : s.dropWhile p ≠ []) (u : QueryText) :
    (s ++ u).takeWhile p = s.takeWhile p ∧ (s ++ u).dropWhile p = s.dropWhile p ++ u := by
  induction s with
  | nil => exact absurd rfl h
  | cons c s ih =>
    by_cases hc : p c = true
    · rw [dropWhile_cons_of_pos hc] at h
      obtain ⟨htake, hdrop⟩ := ih h
      simp only [cons_append, takeWhile_cons_of_pos hc, dropWhile_cons_of_pos hc, htake, hdrop, and_self]
    · simp only [cons_append, takeWhile_cons_of_neg hc, dropWhile_cons_of_neg hc, and_self]

theorem length_takeWhile_add_dropWhile (p : Char → Bool) (s : QueryText) : (s.takeWhile p).length + (s.dropWhile p).length = s.length := by
  rw [← length_append, takeWhile_append_dropWhile]

variable {c : Char}

theorem stringEnd_other (hquote : c ≠ '"') (hback : c ≠ '\\') (s : QueryText) : stringEnd (c :: s) = (stringEnd s).map (c :: ·) := by
  rw [stringEnd] <;> simp [hquote, hback]

theorem stringEnd_append {r : QueryText} (h : stringEnd s = some r) (u : QueryText) : stringEnd (s ++ u) = some r := by
  induction s using stringEnd.induct generalizing r with
  | case1 => cases h
  | case2 => exact h
  | case3 c s hc => simp [stringEnd, hc] at h
  | case4 c s hc ih =>
    simp only [stringEnd, hc, Bool.false_eq_true, if_false] at h
    obtain ⟨r, hr, rfl⟩ := Option.map_eq_some_iff.1 h
    simp [stringEnd, hc, ih hr]
  | case5 => cases h
  | case6 c s hquote hback hlast ih =>
    have hc : c ≠ '\\' := by
      rintro rfl
      cases s with
      | nil => exact hlast rfl rfl
      | cons d s => exact hback d s rfl rfl
    rw [stringEnd_other hquote hc] at h
    obtain ⟨r, hr, rfl⟩ := Option.map_eq_some_iff.1 h
    rw [cons_append, stringEnd_other hquote hc, ih hr, Option.map_some]

theorem digitsAt_append {d : QueryText} (h : digitsAt s = some d) (hd : d.length + 1 < s.length) (u : QueryText) :
    digitsAt (s ++ u) = some d := by
  have hlength := length_takeWhile_add_dropWhile Char.isDigit s
  unfold digitsAt at h ⊢
  simp only at h ⊢
  split at h
  · cases h
  · rename_i hwhole
    split at h
    · rename_i r hpoint
      obtain ⟨htake, hdrop⟩ := takeWhile_append_of_stop (p := Char.isDigit) (s := s) (by rw [hpoint]; simp) u
      have hr := length_takeWhile_add_dropWhile Char.isDigit r
      rw [hpoint, length_cons] at hlength
      have hstop : r.dropWhile Char.isDigit ≠ [] := by
        intro hnil
        rw [hnil, length_nil] at hr
        split at h
        · rename_i hfraction
          cases h
          rw [hfraction, length_nil] at hr
          omega
        · cases h
          rw [length_append, length_cons] at hd
          omega
      obtain ⟨htake', hdrop'⟩ := takeWhile_append_of_stop hstop u
      rw [htake, if_neg hwhole, hdrop, hpoint, cons_append]
      simp only [htake']
      exact h
    · rename_i hother
      cases h
      have hstop : s.dropWhile Char.isDigit ≠ [] := by
        intro hnil
        rw [hnil, length_nil] at hlength
        omega
      obtain ⟨htake, hdrop⟩ := takeWhile_append_of_stop hstop u
      rw [htake, if_neg hwhole, hdrop]
      split
      · rename_i r heq
        cases hs : s.dropWhile Char.isDigit with
        | nil => exact absurd hs hstop
        | cons c t =>
          rw [hs, cons_append] at heq
          cases heq
          exact absurd hs (hother t)
      · rfl

theorem numberAt_other (hc : c ≠ '-') (s : QueryText) : numberAt (c :: s) = digitsAt (c :: s) := by
  unfold numberAt
  split
  · rename_i heq
    cases heq
    exact absurd rfl hc
  · rfl

theorem numberAt_append {d : QueryText} (h : numberAt s = some d) (hd : d.length + 1 < s.length) (u : QueryText) :
    numberAt (s ++ u) = some d := by
  cases s with
  | nil => simp at hd
  | cons c s =>
    by_cases hc : c = '-'
    · subst hc
      obtain ⟨d, hdigits, rfl⟩ := Option.map_eq_some_iff.1 h
      rw [length_cons, length_cons] at hd
      exact Option.map_eq_some_iff.2 ⟨d, digitsAt_append hdigits (by omega) u, rfl⟩
    · rw [numberAt_other hc] at h
      rw [cons_append, numberAt_other hc]
      exact digitsAt_append h hd u

theorem digitsAt_eq_none : digitsAt (c :: s) = none ↔ c.isDigit = false := by
  unfold digitsAt
  cases hc : c.isDigit with
  | false => simp [hc]
  | true =>
    simp only [takeWhile_cons, hc, if_true, reduceCtorEq, if_false, iff_false, Bool.true_eq_false]
    split
    · split <;> simp
    · simp

theorem numberAt_append_none (h : numberAt s = none) (hs : 2 ≤ s.length) (u : QueryText) : numberAt (s ++ u) = none := by
  rcases s with - | ⟨c, - | ⟨d, s⟩⟩
  · simp at hs
  · simp at hs
  · by_cases hc : c = '-'
    · subst hc
      have hdigit : d.isDigit = false := digitsAt_eq_none.1 (Option.map_eq_none_iff.1 h)
      exact Option.map_eq_none_iff.2 (digitsAt_eq_none.2 hdigit)
    · rw [numberAt_other hc] at h
      rw [cons_append, numberAt_other hc]
      exact digitsAt_eq_none.2 (digitsAt_eq_none.1 h)

theorem constantAt_append {k : QueryText} (h : constantAt s = some k) (u : QueryText) : constantAt (s ++ u) = some k := by
  have hprefix := find?_some h
  obtain ⟨t, rfl⟩ := List.isPrefixOf_iff_prefix.1 hprefix
  have hmem := mem_of_find?_eq_some h
  simp only [mem_cons, not_mem_nil, or_false] at hmem
  rcases hmem with rfl | rfl | rfl <;> rfl

theorem constantAt_append_none (h : constantAt s = none) (hs : s.dropWhile isWord ≠ []) (u : QueryText) : constantAt (s ++ u) = none := by
  unfold constantAt at h ⊢
  rw [find?_eq_none] at h ⊢
  intro k hk hprefix
  have hword : k.all isWord = true := by
    clear hprefix
    revert k
    decide
  have hstop := h k hk
  rw [List.isPrefixOf_iff_prefix] at hprefix hstop
  obtain ⟨tail, heq⟩ := hprefix
  rcases append_eq_append_iff.1 heq with ⟨more, rfl, -⟩ | ⟨more, rfl, -⟩
  · exact hstop (prefix_append k more)
  · rw [all_append, Bool.and_eq_true] at hword
    exact hs (dropWhile_eq_nil_iff.2 (all_eq_true.1 hword.1))

theorem wordAt_other (hc : c ≠ '$') (s : QueryText) :
    wordAt (c :: s) = if (c :: s).takeWhile isWord = [] then none else some ((c :: s).takeWhile isWord) := by
  unfold wordAt
  split
  · rename_i heq
    cases heq
    exact absurd rfl hc
  · rfl

theorem dropWhile_word_ne_nil (hs : s ≠ []) (hstop : ∀ w, wordAt s = some w → w.length < s.length) : s.dropWhile isWord ≠ [] := by
  cases s with
  | nil => exact absurd rfl hs
  | cons c s =>
    intro hnil
    have hc : c ≠ '$' := by
      rintro rfl
      cases hnil
    have hlength := length_takeWhile_add_dropWhile isWord (c :: s)
    rw [hnil, length_nil, length_cons] at hlength
    have hword : (c :: s).takeWhile isWord ≠ [] := by
      intro hword
      rw [hword, length_nil] at hlength
      omega
    have hlt := hstop ((c :: s).takeWhile isWord) (by rw [wordAt_other hc, if_neg hword])
    rw [length_cons] at hlt
    omega

theorem wordAt_append (hs : s ≠ []) (hstop : ∀ w, wordAt s = some w → w.length < s.length)
    (hdollar : s.head? = some '$' → 2 ≤ s.length) (u : QueryText) : wordAt (s ++ u) = wordAt s := by
  cases s with
  | nil => exact absurd rfl hs
  | cons c s =>
    by_cases hc : c = '$'
    · subst hc
      have hrest : s.dropWhile isWord ≠ [] := by
        intro hnil
        have hlength := length_takeWhile_add_dropWhile isWord s
        have htwo := hdollar rfl
        rw [hnil, length_nil] at hlength
        rw [length_cons] at htwo
        have hword : s.takeWhile isWord ≠ [] := by
          intro hword
          rw [hword, length_nil] at hlength
          omega
        have hlt := hstop ('$' :: s.takeWhile isWord) (by simp only [wordAt, hword, if_false])
        simp only [length_cons] at hlt
        omega
      simp only [cons_append, wordAt, (takeWhile_append_of_stop hrest u).1]
    · have hrest := dropWhile_word_ne_nil hs hstop
      rw [wordAt_other hc, cons_append, wordAt_other hc, ← cons_append, (takeWhile_append_of_stop hrest u).1]

theorem valueAt_other (hc : c ≠ '"') (s : QueryText) :
    valueAt (c :: s) = ((numberAt (c :: s)).or (constantAt (c :: s))).or (wordAt (c :: s)) := by
  unfold valueAt
  split
  · rename_i heq
    cases heq
    exact absurd rfl hc
  · rfl

theorem valueAt_append {raw : QueryText} (h : valueAt s = some raw) (hraw : raw.length + 1 < s.length) (u : QueryText) :
    valueAt (s ++ u) = some raw := by
  cases s with
  | nil => simp at hraw
  | cons c s =>
    by_cases hc : c = '"'
    · subst hc
      obtain ⟨r, hr, rfl⟩ := Option.map_eq_some_iff.1 h
      exact Option.map_eq_some_iff.2 ⟨r, stringEnd_append hr u, rfl⟩
    · rw [valueAt_other hc] at h
      rw [cons_append, valueAt_other hc, ← cons_append]
      cases hnumber : numberAt (c :: s) with
      | some d =>
        rw [hnumber] at h
        cases h
        rw [numberAt_append hnumber hraw]
        rfl
      | none =>
        have hnumber' := numberAt_append_none hnumber (by rw [length_cons] at hraw ⊢; omega) u
        rw [hnumber] at h
        rw [hnumber']
        cases hconstant : constantAt (c :: s) with
        | some k =>
          rw [hconstant] at h
          cases h
          rw [constantAt_append hconstant]
          rfl
        | none =>
          rw [hconstant] at h
          have hword : wordAt (c :: s) = some raw := h
          have hstop : ∀ w, wordAt (c :: s) = some w → w.length < (c :: s).length := by
            intro w hw
            rw [hword] at hw
            cases hw
            omega
          rw [constantAt_append_none hconstant (dropWhile_word_ne_nil (by simp) hstop),
            wordAt_append (by simp) hstop (fun _ => by rw [length_cons] at hraw ⊢; omega), hword]
          rfl

theorem valueAt_append_none (h : valueAt s = none) (hquote : s.head? ≠ some '"') (hs : 2 ≤ s.length)
    (u : QueryText) : valueAt (s ++ u) = none := by
  cases s with
  | nil => simp at hs
  | cons c s =>
    have hc : c ≠ '"' := by simpa using hquote
    rw [valueAt_other hc, Option.or_eq_none_iff, Option.or_eq_none_iff] at h
    obtain ⟨⟨hnumber, hconstant⟩, hword⟩ := h
    have hstop : ∀ w, wordAt (c :: s) = some w → w.length < (c :: s).length := by
      intro w hw
      rw [hword] at hw
      cases hw
    rw [cons_append, valueAt_other hc, ← cons_append, numberAt_append_none hnumber hs,
      constantAt_append_none hconstant (dropWhile_word_ne_nil (by simp) hstop),
      wordAt_append (by simp) hstop (fun _ => hs), hword]
    rfl

theorem stringEnd_head {r : QueryText} (h : stringEnd s = some r) : r <+: s := by
  induction s using stringEnd.induct generalizing r with
  | case1 => cases h
  | case2 s =>
    cases h
    exact prefix_append ['"'] s
  | case3 c s hc => simp [stringEnd, hc] at h
  | case4 c s hc ih =>
    simp only [stringEnd, hc, Bool.false_eq_true, if_false] at h
    obtain ⟨r, hr, rfl⟩ := Option.map_eq_some_iff.1 h
    exact prefix_append_right_inj ['\\', c] |>.2 (ih hr)
  | case5 => cases h
  | case6 c s hquote hback hlast ih =>
    have hc : c ≠ '\\' := by
      rintro rfl
      cases s with
      | nil => exact hlast rfl rfl
      | cons d s => exact hback d s rfl rfl
    rw [stringEnd_other hquote hc] at h
    obtain ⟨r, hr, rfl⟩ := Option.map_eq_some_iff.1 h
    exact cons_prefix_cons.2 ⟨rfl, ih hr⟩

theorem digitsAt_head {d : QueryText} (h : digitsAt s = some d) : d <+: s := by
  have hsplit := takeWhile_append_dropWhile (p := Char.isDigit) (l := s)
  unfold digitsAt at h
  simp only at h
  split at h
  · cases h
  · split at h
    · rename_i r hr
      split at h
      · cases h
        exact List.takeWhile_prefix _
      · cases h
        obtain ⟨tail, htail⟩ := List.takeWhile_prefix Char.isDigit (l := r)
        refine ⟨tail, ?_⟩
        rw [append_assoc, cons_append, htail, ← hr, hsplit]
    · cases h
      exact List.takeWhile_prefix _

theorem valueAt_head {raw : QueryText} (h : valueAt s = some raw) : raw <+: s := by
  cases s with
  | nil => cases h
  | cons c s =>
    by_cases hc : c = '"'
    · subst hc
      obtain ⟨r, hr, rfl⟩ := Option.map_eq_some_iff.1 h
      exact cons_prefix_cons.2 ⟨rfl, stringEnd_head hr⟩
    · rw [valueAt_other hc, Option.or_eq_some_iff, Option.or_eq_some_iff] at h
      rcases h with (hnumber | ⟨-, hconstant⟩) | ⟨-, hword⟩
      · by_cases hminus : c = '-'
        · subst hminus
          obtain ⟨d, hd, rfl⟩ := Option.map_eq_some_iff.1 hnumber
          exact cons_prefix_cons.2 ⟨rfl, digitsAt_head hd⟩
        · rw [numberAt_other hminus] at hnumber
          exact digitsAt_head hnumber
      · have hprefix := find?_some hconstant
        exact List.isPrefixOf_iff_prefix.1 hprefix
      · by_cases hdollar : c = '$'
        · subst hdollar
          rw [wordAt, Option.ite_none_left_eq_some] at hword
          obtain rfl := Option.some.inj hword.2
          exact cons_prefix_cons.2 ⟨rfl, List.takeWhile_prefix _⟩
        · rw [wordAt_other hdollar, Option.ite_none_left_eq_some] at hword
          obtain rfl := Option.some.inj hword.2
          exact List.takeWhile_prefix _

/-! ## The head of an argument -/

section

variable {lead : QueryText}

theorem argAt_append_noKey (hlead : lead ≠ []) (hkey : lead.takeWhile isWord = []) (u : QueryText) : argAt (lead ++ u) = none := by
  cases lead with
  | nil => exact absurd rfl hlead
  | cons c lead =>
    have hc : isWord c = false := by
      cases h : isWord c with
      | false => rfl
      | true =>
        rw [takeWhile_cons_of_pos h] at hkey
        cases hkey
    unfold argAt
    simp [hc]

theorem behind_key {c : Char} {r : QueryText} (hr : (lead.dropWhile isWord).dropWhile isSpace = c :: r) (u : QueryText) :
    (lead ++ u).takeWhile isWord = lead.takeWhile isWord ∧ ((lead ++ u).dropWhile isWord).dropWhile isSpace = c :: (r ++ u) := by
  have hstop : lead.dropWhile isWord ≠ [] := by
    intro hnil
    rw [hnil] at hr
    cases hr
  obtain ⟨htake, hdrop⟩ := takeWhile_append_of_stop hstop u
  refine ⟨htake, ?_⟩
  rw [hdrop, (takeWhile_append_of_stop (by rw [hr]; simp) u).2, hr, cons_append]

theorem argAt_append_noColon {c : Char} {r : QueryText} (hr : (lead.dropWhile isWord).dropWhile isSpace = c :: r)
    (hc : c ≠ ':') (u : QueryText) : argAt (lead ++ u) = none := by
  obtain ⟨htake, hdrop⟩ := behind_key hr u
  unfold argAt
  simp only [hdrop]
  split
  · rfl
  · split
    · rename_i heq
      cases heq
      exact absurd rfl hc
    · rfl

theorem argAt_append {r value : QueryText} (hkey : lead.takeWhile isWord ≠ [])
    (hr : (lead.dropWhile isWord).dropWhile isSpace = ':' :: r) {u : QueryText}
    (hvalue : (r ++ u).dropWhile isSpace = value ++ u) :
    argAt (lead ++ u) = (valueAt (value ++ u)).map fun raw =>
      ((lead.takeWhile isWord, raw), lead.length - value.length + raw.length - 1) := by
  obtain ⟨htake, hdrop⟩ := behind_key hr u
  unfold argAt
  simp only [htake, hdrop, hkey, if_false, hvalue]
  congr 1
  funext raw
  simp only [length_append, Nat.add_sub_add_right]

end

/-! ## The arguments of a rendering -/

section

variable {f : QueryText → QueryText}

theorem render_lead (ms : List Mark) : render f ms = leadText ms ++ render f (ms.drop (leadText ms).length) := by
  induction ms with
  | nil => rfl
  | cons m ms ih =>
    cases m with
    | ch c =>
      simp only [leadText, length_cons, drop_succ_cons, cons_append, render, ← ih]
    | mention name => rfl

variable {ms : List Mark}

theorem drop_render {n : Nat} (h : n ≤ (leadText ms).length) : (render f ms).drop n = render f (ms.drop n) := by
  induction ms generalizing n with
  | nil => simp [render]
  | cons m ms ih =>
    cases n with
    | zero => rfl
    | succ n =>
      cases m with
      | ch c =>
        simp only [leadText, length_cons] at h
        exact ih (by omega)
      | mention name => simp [leadText] at h

theorem endsValue_render (h : endsValue ms = true) : ∀ c ∈ (render f ms).head?, isWord c = false ∧ c ≠ '.' := by
  rcases ms with - | ⟨c | name, ms⟩
  · simp [render]
  · simpa [endsValue, render] using h
  · cases h

theorem argAt_render_last {c : Char} (h : ms.drop (leadText ms).length = []) : match argAt (c :: leadText ms) with
    | some (arg, n) =>
      ∃ k, argAt (render f (.ch c :: ms)) = some (arg, k) ∧ (render f ms).drop k = render f (ms.drop n)
    | none => argAt (render f (.ch c :: ms)) = none := by
  have hrender := render_lead (f := f) ms
  rw [h, render, append_nil] at hrender
  have htext : render f (.ch c :: ms) = c :: leadText ms := congrArg (c :: ·) hrender
  rw [htext]
  split
  · rename_i arg n harg
    refine ⟨n, harg, ?_⟩
    rcases Nat.le_total n (leadText ms).length with hn | hn
    · exact drop_render hn
    · have hms := drop_eq_nil_iff.1 h
      rw [hrender, drop_eq_nil_of_le hn, drop_eq_nil_of_le (by omega)]
      rfl
  · assumption

theorem drop_lead (ms : List Mark) : ∀ c rest, ms.drop (leadText ms).length ≠ .ch c :: rest := by
  intro c rest
  induction ms with
  | nil => simp
  | cons m ms ih =>
    cases m with
    | ch d => simpa [leadText] using ih
    | mention name => simp [leadText]

/-- What a step says is found in a text. -/
def ArgStep.Right (f : QueryText → QueryText) (text : QueryText) (c : Char) (ms : List Mark) : ArgStep → Prop
  | .skip => argAt (c :: text) = none
  | .arg key value n => ∃ k, argAt (c :: text) = some ((key, value.text f), k) ∧ text.drop k = render f (ms.drop n)
  | .stuck => True

section

variable {lead name : QueryText} {rest : List Mark} {c : Char} {ms : List Mark}

theorem valueStep_right (hvalue : ValueText (f name)) (hlead : c :: leadText ms = lead)
    (hrest : ms.drop (leadText ms).length = .mention name :: rest) (hkey : lead.takeWhile isWord ≠ []) {r : QueryText}
    (hr : (lead.dropWhile isWord).dropWhile isSpace = ':' :: r) :
    (valueStep (lead.takeWhile isWord) lead.length (r.dropWhile isSpace) name rest).Right f (render f ms) c ms := by
  have hms := render_lead (f := f) ms
  rw [hrest, render] at hms
  have htext : c :: render f ms = lead ++ (f name ++ render f rest) := by
    rw [hms, ← hlead, cons_append]
  have hlength : lead.length = (leadText ms).length + 1 := by
    rw [← hlead, length_cons]
  unfold valueStep
  split
  · rename_i hnil
    split
    · rename_i hends
      -- the mention is the value
      have hspaces : (r ++ (f name ++ render f rest)).dropWhile isSpace = [] ++ (f name ++ render f rest) := by
        obtain ⟨d, hd, hspace⟩ := hvalue.head
        cases hname : f name with
        | nil =>
          rw [hname] at hd
          cases hd
        | cons e t =>
          rw [hname] at hd
          cases hd
          rw [dropWhile_append_of_pos (dropWhile_eq_nil_iff.1 hnil), cons_append, dropWhile_cons_of_neg (by simp [hspace])]
          rfl
      have harg := argAt_append hkey hr hspaces
      rw [nil_append, hvalue.value _ (endsValue_render hends), Option.map_some, length_nil, Nat.sub_zero] at harg
      refine ⟨lead.length + (f name).length - 1, htext ▸ harg, ?_⟩
      have hdrop : ms.drop lead.length = rest := by
        rw [hlength, ← drop_drop, hrest]
        rfl
      rw [hdrop, hms, ← append_assoc]
      apply drop_left'
      rw [length_append]
      omega
    · trivial
  · rename_i hne
    have hspaces := (takeWhile_append_of_stop hne (f name ++ render f rest)).2
    have harg := argAt_append hkey hr hspaces
    split
    · rename_i raw hraw
      split
      · rename_i hshort
        rw [valueAt_append hraw hshort, Option.map_some] at harg
        refine ⟨_, htext ▸ harg, ?_⟩
        have hcolon := congrArg List.length hr
        have hkeyed := (dropWhile_sublist (l := lead.dropWhile isWord) isSpace).length_le
        have hwhole := (dropWhile_sublist (l := lead) isWord).length_le
        have hspaced := (dropWhile_sublist (l := r) isSpace).length_le
        rw [length_cons] at hcolon
        apply drop_render
        omega
      · trivial
    · rename_i hnone
      split
      · trivial
      · rename_i hboth
        rw [not_or, not_lt] at hboth
        rw [valueAt_append_none hnone hboth.1 hboth.2, Option.map_none] at harg
        show argAt (c :: render f ms) = none
        rw [htext]
        exact harg

theorem keyStep_right (hvalue : ValueText (f name)) (hlead : c :: leadText ms = lead)
    (hrest : ms.drop (leadText ms).length = .mention name :: rest) :
    (keyStep lead name rest).Right f (render f ms) c ms := by
  have hms := render_lead (f := f) ms
  rw [hrest, render] at hms
  have htext : c :: render f ms = lead ++ (f name ++ render f rest) := by
    rw [hms, ← hlead, cons_append]
  unfold keyStep
  split
  · rename_i hkey
    show argAt (c :: render f ms) = none
    rw [htext]
    exact argAt_append_noKey (by rw [← hlead]; simp) hkey _
  · rename_i hkey
    split
    · trivial
    · rename_i d r hr
      split
      · rename_i hd
        subst hd
        exact valueStep_right hvalue hlead hrest hkey hr
      · rename_i hd
        show argAt (c :: render f ms) = none
        rw [htext]
        exact argAt_append_noColon hr hd _

end

theorem argStep_right {c : Char} (hf : ∀ name, .mention name ∈ ms → ValueText (f name)) : (argStep c ms).Right f (render f ms) c ms := by
  unfold argStep
  split
  · rename_i name rest hrest
    have hmem : .mention name ∈ ms := by
      apply mem_of_mem_drop (i := (leadText ms).length)
      rw [hrest]
      exact mem_cons_self
    exact keyStep_right (hf name hmem) rfl hrest
  · rename_i hrest
    have hnil : ms.drop (leadText ms).length = [] := by
      rcases h : ms.drop (leadText ms).length with - | ⟨d | name, rest⟩
      · rfl
      · exact absurd h (drop_lead ms d rest)
      · exact absurd h (hrest name rest)
    have hlast := argAt_render_last (f := f) (c := c) hnil
    split
    · rename_i key raw n harg
      rw [harg] at hlast
      exact hlast
    · rename_i harg
      rw [harg] at hlast
      exact hlast

theorem readContent_drop (n : Nat) (ms : List Mark) : readContent n ms = readContent 0 (ms.drop n) := by
  induction ms generalizing n with
  | nil => cases n <;> rfl
  | cons m ms ih =>
    cases n with
    | zero => rfl
    | succ n => exact ih n

theorem found_render (hf : ∀ name, .mention name ∈ ms → ValueText (f name))
    {args : List (QueryText × ArgText)} (h : readContent 0 ms = some args) :
    found argAt (render f ms) = args.map fun arg => (arg.1, arg.2.text f) := by
  induction hn : ms.length using Nat.strongRecOn generalizing ms args with
  | _ n ih =>
    subst hn
    rcases ms with - | ⟨c | name, ms⟩
    · cases h
      rfl
    · have hright := argStep_right (c := c) fun name hname => hf name (mem_cons_of_mem _ hname)
      simp only [readContent] at h
      cases hstep : argStep c ms with
      | stuck =>
        rw [hstep] at h
        cases h
      | skip =>
        rw [hstep] at h hright
        rw [render, found_cons_none hright]
        exact ih ms.length (by simp) (fun name hname => hf name (mem_cons_of_mem _ hname)) h rfl
      | arg key value k =>
        rw [hstep] at h hright
        obtain ⟨k', hat, hdrop⟩ := hright
        obtain ⟨args, hargs, rfl⟩ := Option.map_eq_some_iff.1 h
        rw [readContent_drop] at hargs
        have hlt : (ms.drop k).length < (Mark.ch c :: ms).length := by
          rw [length_drop, length_cons]
          omega
        have hmem : ∀ name, .mention name ∈ ms.drop k → ValueText (f name) :=
          fun name hname => hf name (mem_cons_of_mem _ (mem_of_mem_drop hname))
        rw [render, found_cons_some hat, hdrop, ih _ hlt hmem hargs rfl]
        rfl
    · cases h

end

/-! ## What stands in the arguments -/

/-- What stands in an argument stands in the text. -/
def ArgText.Within (ms : List Mark) : ArgText → Prop
  | .lit raw => ∀ c ∈ raw, .ch c ∈ ms
  | .var name => .mention name ∈ ms

variable {ms : List Mark}

theorem ArgText.Within.mono {ns : List Mark} {value : ArgText} (h : value.Within ms) (hsub : ∀ m ∈ ms, m ∈ ns) : value.Within ns := by
  cases value with
  | lit raw => exact fun c hc => hsub _ (h c hc)
  | var name => exact hsub _ h

theorem mem_leadText (h : c ∈ leadText ms) : .ch c ∈ ms := by
  induction ms with
  | nil => cases h
  | cons m ms ih =>
    cases m with
    | ch d =>
      rcases mem_cons.1 h with rfl | h
      · exact mem_cons_self
      · exact mem_cons_of_mem _ (ih h)
    | mention name => cases h

theorem mem_behind_key {r : QueryText} {d : Char} (hr : (s.dropWhile isWord).dropWhile isSpace = c :: r)
    (hd : d ∈ r.dropWhile isSpace) : d ∈ s := by
  apply (dropWhile_suffix isWord).subset
  apply (dropWhile_suffix isSpace).subset
  rw [hr]
  exact mem_cons_of_mem _ ((dropWhile_suffix isSpace).subset hd)

theorem mem_of_argAt {key raw : QueryText} {n : Nat} (h : argAt s = some ((key, raw), n)) {d : Char} (hd : d ∈ raw) : d ∈ s := by
  unfold argAt at h
  simp only at h
  split at h
  · cases h
  · split at h
    · rename_i r hr
      obtain ⟨raw', hraw, heq⟩ := Option.map_eq_some_iff.1 h
      cases heq
      exact mem_behind_key hr ((valueAt_head hraw).subset hd)
    · cases h

theorem argStep_within {key : QueryText} {value : ArgText} {n : Nat} (h : argStep c ms = .arg key value n) : value.Within (.ch c :: ms) := by
  have hlead : ∀ d ∈ c :: leadText ms, .ch d ∈ Mark.ch c :: ms := by
    intro d hd
    rcases mem_cons.1 hd with rfl | hd
    · exact mem_cons_self
    · exact mem_cons_of_mem _ (mem_leadText hd)
  unfold argStep at h
  split at h
  · rename_i name rest hrest
    unfold keyStep at h
    split at h
    · cases h
    split at h
    · cases h
    rename_i d r hr
    split at h
    · unfold valueStep at h
      split at h
      · split at h
        · cases h
          apply mem_cons_of_mem
          apply mem_of_mem_drop (i := (leadText ms).length)
          rw [hrest]
          exact mem_cons_self
        · cases h
      · split at h
        · rename_i raw hraw
          split at h
          · cases h
            intro e he
            exact hlead e (mem_behind_key hr ((valueAt_head hraw).subset he))
          · cases h
        · split at h <;> cases h
    · cases h
  · split at h
    · rename_i harg
      cases h
      exact fun e he => hlead e (mem_of_argAt harg he)
    · cases h

theorem readContent_within {args : List (QueryText × ArgText)} (h : readContent 0 ms = some args) : ∀ arg ∈ args, arg.2.Within ms := by
  induction hn : ms.length using Nat.strongRecOn generalizing ms args with
  | _ n ih =>
    subst hn
    rcases ms with - | ⟨c | name, ms⟩
    · cases h
      simp
    · simp only [readContent] at h
      cases hstep : argStep c ms with
      | stuck =>
        rw [hstep] at h
        cases h
      | skip =>
        rw [hstep] at h
        exact fun arg harg => (ih ms.length (by simp) h rfl arg harg).mono fun m hm => mem_cons_of_mem _ hm
      | arg key value k =>
        rw [hstep] at h
        obtain ⟨args, hargs, rfl⟩ := Option.map_eq_some_iff.1 h
        rw [readContent_drop] at hargs
        have hlt : (ms.drop k).length < (Mark.ch c :: ms).length := by
          rw [length_drop, length_cons]
          omega
        rw [forall_mem_cons]
        refine ⟨argStep_within hstep, fun arg harg => ?_⟩
        exact (ih _ hlt hargs rfl arg harg).mono fun m hm => mem_cons_of_mem _ (mem_of_mem_drop hm)
    · cases h

end StreetJS.GraphQl
