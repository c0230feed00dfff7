/-
Chains of blocks in which every seal is made from the block and the seal before it. The last seal is as good as
the whole chain, unless two different blocks or predecessors can have one seal.
-/

namespace StreetJS.Lib

variable {B S : Type}

/-- The blocks, each with its seal, and the last seal. -/
inductive Sealed (sign : Option S → B → S) : List (B × S) → Option S → Prop where
  | empty : Sealed sign [] none
  | concat {blocks : List (B × S)} {last : Option S} (block : B) :
    Sealed sign blocks last → Sealed sign (blocks ++ [(block, sign last block)]) (some (sign last block))

/-- Two different messages have one seal. -/
def Collides (sign : Option S → B → S) : Prop :=
  ∃ last block last' block', (last, block) ≠ (last', block') ∧ sign last block = sign last' block'

variable {sign : Option S → B → S}

theorem Sealed.unique {blocks blocks' : List (B × S)} {head : Option S} (h : Sealed sign blocks head)
    (h' : Sealed sign blocks' head) : blocks = blocks' ∨ Collides sign := by
  induction h generalizing blocks' with
  | empty =>
    cases h'
    exact Or.inl rfl
  | @concat blocks last block h ih =>
    generalize heq : some (sign last block) = head at h'
    cases h' with
    | empty => cases heq
    | @concat blocks₂ last₂ block₂ h₂ =>
      have hseal : sign last block = sign last₂ block₂ := Option.some.inj heq
      by_cases hsame : (last, block) = (last₂, block₂)
      · obtain ⟨rfl, rfl⟩ := Prod.mk.inj hsame
        rcases ih h₂ with rfl | hc
        · exact Or.inl rfl
        · exact Or.inr hc
      · exact Or.inr ⟨last, block, last₂, block₂, hsame, hseal⟩

theorem Sealed.init {blocks : List (B × S)} {block : B × S} {head : Option S}
    (h : Sealed sign (blocks ++ [block]) head) : ∃ last, Sealed sign blocks last := by
  generalize heq : blocks ++ [block] = all at h
  cases h with
  | empty => simp at heq
  | @concat blocks₂ last block₂ h =>
    obtain ⟨rfl, -⟩ := List.append_inj' heq rfl
    exact ⟨last, h⟩

theorem Sealed.singleton {block : B} {seal' : S} {head : Option S} (h : Sealed sign [(block, seal')] head) : seal' = sign none block := by
  generalize heq : [(block, seal')] = all at h
  cases h with
  | empty => cases heq
  | @concat blocks last block₂ h =>
    obtain ⟨rfl, hlast⟩ := @List.append_inj' _ [] _ _ _ heq rfl
    cases hlast
    generalize hnil : ([] : List (B × S)) = before at h
    cases h with
    | empty => rfl
    | concat => simp at hnil

end StreetJS.Lib
