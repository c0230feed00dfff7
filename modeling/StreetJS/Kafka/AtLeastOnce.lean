/-
At least once and in order: where a restart finds a committed offset or goes to the beginning, and a consumer is not
run again while its loop goes on, the next offset of a loop and the committed offset never pass a record whose
handler has not completed.
-/
import StreetJS.Kafka.Consumer

namespace StreetJS.Kafka

open StreetJS.Lib List

namespace ConsumerWorld

variable {opts : ConsumerOptions} {w : ConsumerWorld} {x : Nat}

/-! ## What the consumer owes -/

/-- Each loop hands records in the order of their offsets; the offset that is committed is behind a record whose
handler has completed, as have those of all records that were fetched before it; and no loop is past a record that
was there to be consumed and is not completed. -/
structure AtLeastOnce (w : ConsumerWorld) : Prop where
  order : ∀ l ∈ w.loops, l.handed.Pairwise (· ≤ ·)
  commit : ∀ c, w.committed = some c → ∃ r ∈ w.completed, c = r + 1 ∧ ∀ r' ∈ w.fetched, r' ≤ r → r' ∈ w.completed
  noSkip : ∀ l ∈ w.loops, l.phase ≠ .starting → l.phase ≠ .ended → ∃ b, w.base = some b ∧
    ∀ r ∈ w.log, b ≤ r → r ∉ w.completed → w.offset l.consumer ≤ r

/-- A consumer is run only when its loops have ended; a start that is not the first finds a committed offset, or is
from the beginning. -/
def Restarts (opts : ConsumerOptions) (w : ConsumerWorld) : ConsumerEvent → Prop
  | .run k => ∀ l ∈ w.loops, l.consumer = k → l.phase = .ended
  | .started _ _ => opts.fromBeginning = true ∨ w.committed.isSome = true ∨ w.base = none
  | _ => True

/-! ## Consumers of the world -/

@[simp] theorem length_setOffset (k o : Nat) : (w.setOffset k o).consumers.length = w.consumers.length := by
  simp [setOffset]

theorem offset_setOffset {k : Nat} (hk : k < w.consumers.length) (o : Nat) : (w.setOffset k o).offset k = o := by
  simp [offset, setOffset, getElem?_eq_getElem hk]

theorem offset_setOffset_of_ne {k k' : Nat} (hk : k' ≠ k) (o : Nat) : (w.setOffset k o).offset k' = w.offset k' := by
  simp [offset, setOffset, Ne.symm hk]

theorem offset_setRunning (k : Nat) (running : Bool) (k' : Nat) : (w.setRunning k running).offset k' = w.offset k' := by
  unfold offset setRunning
  rw [getElem?_modify]
  cases w.consumers[k']? with
  | none => rfl
  | some c => by_cases hk : k = k' <;> simp [hk]

/-! ## The invariant -/

/-- All records from the first start up to the offset have been completed. -/
def Done (w : ConsumerWorld) (o : Nat) : Prop :=
  ∃ b, w.base = some b ∧ b ≤ o ∧ o ≤ w.endOffset ∧ ∀ r ∈ w.log, b ≤ r → r < o → r ∈ w.completed

def Reached (w : ConsumerWorld) (c : Nat) : Prop := w.Done c ∧ ∃ r ∈ w.completed, c = r + 1

/-- The records that are there from an offset on. -/
def ahead (w : ConsumerWorld) (o : Nat) : List Nat := w.log.filter fun r => decide (o ≤ r)

structure LoopOk (w : ConsumerWorld) (l : PollLoop) : Prop where
  known : l.consumer < w.consumers.length
  sorted : l.handed.Pairwise (· ≤ ·)
  below : ∀ h ∈ l.handed, h < w.endOffset
  first : l.phase = .starting → l.handed = []
  goes : l.phase ≠ .starting → l.phase ≠ .ended → w.Done (w.offset l.consumer) ∧ ∀ h ∈ l.handed, ∀ r ∈ w.log, w.offset l.consumer ≤ r → h ≤ r
  fetching : ∀ o, l.phase = .fetching o → o = w.offset l.consumer
  handling : ∀ record rest, l.phase = .handling record rest → (record :: rest) <+: w.ahead (w.offset l.consumer)
  committing : ∀ c, l.phase = .committing c → w.Reached c

structure Inv (opts : ConsumerOptions) (w : ConsumerWorld) : Prop where
  origin : opts.fromBeginning = true → ∀ b, w.base = some b → b = 0
  ascending : w.log.Pairwise (· < ·)
  bound : ∀ r ∈ w.log, r < w.endOffset
  fetched : ∀ r ∈ w.fetched, r ∈ w.log ∧ ∃ b, w.base = some b ∧ b ≤ r
  committed : ∀ c, w.committed = some c → w.Reached c
  loops : ∀ l ∈ w.loops, w.LoopOk l
  alone : ∀ {x y : Nat} {l l' : PollLoop}, w.loops[x]? = some l → w.loops[y]? = some l' → l.consumer = l'.consumer →
    l.phase ≠ .ended → l'.phase ≠ .ended → x = y

theorem Inv.atLeastOnce (h : Inv opts w) : w.AtLeastOnce where
  order l hl := (h.loops l hl).sorted
  commit c hc := by
    obtain ⟨⟨b, hb, -, -, hdone⟩, r, hr, rfl⟩ := h.committed c hc
    refine ⟨r, hr, rfl, fun r' hr' hle => ?_⟩
    obtain ⟨hlog, b', hb', hge⟩ := h.fetched r' hr'
    obtain rfl : b = b' := Option.some.inj (hb.symm.trans hb')
    exact hdone r' hlog hge (by omega)
  noSkip l hl hstarted hlive := by
    obtain ⟨⟨b, hb, -, -, hdone⟩, -⟩ := (h.loops l hl).goes hstarted hlive
    refine ⟨b, hb, fun r hr hge hnot => ?_⟩
    rcases Nat.lt_or_ge r (w.offset l.consumer) with hlt | hle
    · exact absurd (hdone r hr hge hlt) hnot
    · exact hle

theorem inv_init : Inv opts {} where
  origin _ b hb := by cases hb
  ascending := List.Pairwise.nil
  bound r hr := by cases hr
  fetched r hr := by cases hr
  committed c hc := by cases hc
  loops l hl := by cases hl
  alone hx := by cases hx

/-! ## Growing worlds -/

/-- The log may have more records behind its end, and more records are completed. -/
structure Grows (w w' : ConsumerWorld) : Prop where
  consumers : w.consumers.length ≤ w'.consumers.length
  log : ∃ more, w'.log = w.log ++ more ∧ ∀ r ∈ more, w.endOffset ≤ r
  endOffset : w.endOffset ≤ w'.endOffset
  base : ∀ b, w.base = some b → w'.base = some b
  completed : ∀ r ∈ w.completed, r ∈ w'.completed

variable {w' : ConsumerWorld}

theorem Done.grows {o : Nat} (h : w.Done o) (hw : w.Grows w') : w'.Done o := by
  obtain ⟨b, hb, hle, hend, hdone⟩ := h
  obtain ⟨more, hlog, hmore⟩ := hw.log
  refine ⟨b, hw.base b hb, hle, le_trans hend hw.endOffset, fun r hr hge hlt => ?_⟩
  rw [hlog] at hr
  rcases mem_append.1 hr with hr | hr
  · exact hw.completed r (hdone r hr hge hlt)
  · have := hmore r hr
    omega

theorem Reached.grows {c : Nat} (h : w.Reached c) (hw : w.Grows w') : w'.Reached c := by
  obtain ⟨hdone, r, hr, rfl⟩ := h
  exact ⟨hdone.grows hw, r, hw.completed r hr, rfl⟩

variable {l : PollLoop}

theorem LoopOk.grows (h : w.LoopOk l) (hw : w.Grows w')
    (hoffset : l.phase ≠ .ended → w'.offset l.consumer = w.offset l.consumer) : w'.LoopOk l := by
  obtain ⟨more, hlog, hmore⟩ := hw.log
  constructor
  · exact lt_of_lt_of_le h.known hw.consumers
  · exact h.sorted
  · exact fun e he => lt_of_lt_of_le (h.below e he) hw.endOffset
  · exact h.first
  · intro hstarted hlive
    obtain ⟨hdone, hhanded⟩ := h.goes hstarted hlive
    rw [hoffset hlive]
    refine ⟨hdone.grows hw, fun e he r hr hle => ?_⟩
    rw [hlog] at hr
    rcases mem_append.1 hr with hr | hr
    · exact hhanded e he r hr hle
    · have := h.below e he
      have := hmore r hr
      omega
  · intro o ho
    rw [hoffset (by rw [ho]; simp)]
    exact h.fetching o ho
  · intro record rest hphase
    rw [hoffset (by rw [hphase]; simp), ahead, hlog, filter_append]
    exact (h.handling record rest hphase).trans (prefix_append _ _)
  · exact fun c hc => (h.committing c hc).grows hw

theorem Inv.update (h : Inv opts w) {x : Nat} {l' : PollLoop} (hx : w.loops[x]? = some l)
    (hloops : w'.loops = w.loops.set x l') (hlive : l.phase ≠ .ended) (hconsumer : l'.consumer = l.consumer)
    (hgrows : w.Grows w') (hlog : w'.log = w.log) (hoffset : ∀ k, k ≠ l.consumer → w'.offset k = w.offset k)
    (hfetched : ∀ r ∈ w'.fetched, r ∈ w.fetched ∨ r ∈ w.log ∧ ∃ b, w.base = some b ∧ b ≤ r)
    (hcommitted : ∀ c, w'.committed = some c → w.committed = some c ∨ w.Reached c)
    (horigin : opts.fromBeginning = true → ∀ b, w'.base = some b → b = 0) (hl' : w'.LoopOk l') : Inv opts w' := by
  constructor
  · exact horigin
  · rw [hlog]
    exact h.ascending
  · intro r hr
    rw [hlog] at hr
    exact lt_of_lt_of_le (h.bound r hr) hgrows.endOffset
  · intro r hr
    have hold : r ∈ w.log ∧ ∃ b, w.base = some b ∧ b ≤ r := by
      rcases hfetched r hr with hr | hr
      · exact h.fetched r hr
      · exact hr
    obtain ⟨hmem, b, hb, hle⟩ := hold
    rw [hlog]
    exact ⟨hmem, b, hgrows.base b hb, hle⟩
  · intro c hc
    rcases hcommitted c hc with hc | hc
    · exact (h.committed c hc).grows hgrows
    · exact hc.grows hgrows
  · intro k hk
    obtain ⟨y, hy⟩ := mem_iff_getElem?.1 hk
    rw [hloops] at hy
    rcases getElem?_set_cases hy with ⟨-, rfl⟩ | ⟨hne, hy⟩
    · exact hl'
    · refine (h.loops k (mem_of_getElem? hy)).grows hgrows fun hphase => hoffset _ fun heq => ?_
      exact hne (h.alone hy hx heq hphase hlive)
  · intro y z k k' hy hz heq hk hk'
    rw [hloops] at hy hz
    rcases getElem?_set_cases hy with ⟨hyx, hkl⟩ | ⟨-, hold⟩
    · rcases getElem?_set_cases hz with ⟨hzx, -⟩ | ⟨-, hold'⟩
      · rw [hyx, hzx]
      · rw [hkl, hconsumer] at heq
        rw [hyx]
        exact h.alone hx hold' heq hlive hk'
    · rcases getElem?_set_cases hz with ⟨hzx, hkl⟩ | ⟨-, hold'⟩
      · rw [hkl, hconsumer] at heq
        rw [hzx]
        exact h.alone hold hx heq hk hlive
      · exact h.alone hold hold' heq hk hk'

/-! ## Events outside the loops -/

theorem Inv.outside (h : Inv opts w) (hloops : w'.loops = w.loops) (hgrows : w.Grows w')
    (hlog : w'.log.Pairwise (· < ·)) (hbound : ∀ r ∈ w'.log, r < w'.endOffset) (hbase : w'.base = w.base)
    (hoffset : ∀ k, k < w.consumers.length → w'.offset k = w.offset k) (hfetched : w'.fetched = w.fetched)
    (hcommitted : w'.committed = w.committed) : Inv opts w' := by
  constructor
  · rw [hbase]
    exact h.origin
  · exact hlog
  · exact hbound
  · intro r hr
    rw [hfetched] at hr
    obtain ⟨hmem, b, hb, hle⟩ := h.fetched r hr
    obtain ⟨more, hmore, -⟩ := hgrows.log
    rw [hmore]
    exact ⟨mem_append_left _ hmem, b, hgrows.base b hb, hle⟩
  · intro c hc
    rw [hcommitted] at hc
    exact (h.committed c hc).grows hgrows
  · intro l hl
    rw [hloops] at hl
    exact (h.loops l hl).grows hgrows fun _ => hoffset _ (h.loops l hl).known
  · intro x y l l' hx hy
    rw [hloops] at hx hy
    exact h.alone hx hy

theorem Grows.of_log (hconsumers : w'.consumers.length = w.consumers.length) (hlog : w'.log = w.log)
    (hend : w'.endOffset = w.endOffset) (hbase : ∀ b, w.base = some b → w'.base = some b)
    (hcompleted : ∀ r ∈ w.completed, r ∈ w'.completed) : w.Grows w' where
  consumers := le_of_eq hconsumers.symm
  log := ⟨[], by rw [hlog, append_nil], fun r hr => by cases hr⟩
  endOffset := le_of_eq hend.symm
  base := hbase
  completed := hcompleted

theorem Grows.still {loops : List PollLoop} {committed : Option Nat} {fetched : List Nat} :
    w.Grows { w with loops, committed, fetched } := .of_log rfl rfl rfl (fun _ => id) fun _ => id

theorem inv_append (h : Inv opts w) (gap : Nat) : Inv opts (step opts w (.append gap)) := by
  refine h.outside rfl ⟨le_rfl, ⟨[w.endOffset + gap], rfl, ?_⟩, ?_, fun _ hb => hb, fun _ hr => hr⟩ ?_ ?_ rfl (fun _ _ => rfl) rfl rfl
  · intro r hr
    obtain rfl := mem_singleton.1 hr
    omega
  · show w.endOffset ≤ w.endOffset + gap + 1
    omega
  · show (w.log ++ [w.endOffset + gap]).Pairwise (· < ·)
    rw [pairwise_append]
    refine ⟨h.ascending, pairwise_singleton _ _, fun r hr r' hr' => ?_⟩
    obtain rfl := mem_singleton.1 hr'
    have := h.bound r hr
    omega
  · intro r hr
    show r < w.endOffset + gap + 1
    rcases mem_append.1 hr with hr | hr
    · have := h.bound r hr
      omega
    · obtain rfl := mem_singleton.1 hr
      omega

theorem inv_setRunning (h : Inv opts w) (k : Nat) (running : Bool) : Inv opts (w.setRunning k running) := by
  refine h.outside rfl (.of_log ?_ rfl rfl (fun _ => id) fun _ => id) h.ascending h.bound rfl (fun k' _ => offset_setRunning k running k') rfl rfl
  simp [setRunning]

theorem inv_create (h : Inv opts w) : Inv opts (step opts w .create) := by
  refine h.outside rfl ⟨?_, ⟨[], (append_nil _).symm, fun r hr => by cases hr⟩, le_rfl, fun _ hb => hb,
    fun _ hr => hr⟩ h.ascending h.bound rfl ?_ rfl rfl
  · simp [step]
  · intro k hk
    simp [offset, step, getElem?_append_left hk]

theorem inv_run (h : Inv opts w) {k : Nat} (hk : ∀ l ∈ w.loops, l.consumer = k → l.phase = .ended) : Inv opts (step opts w (.run k)) := by
  rw [step]
  split
  · rename_i hlt
    have h' := inv_setRunning h k true
    have hgrows : (w.setRunning k true).Grows { w.setRunning k true with loops := w.loops ++ [{ consumer := k }] } :=
      .still
    constructor
    · exact h'.origin
    · exact h'.ascending
    · exact h'.bound
    · exact h'.fetched
    · exact fun c hc => (h'.committed c hc).grows hgrows
    · intro l hl
      rcases mem_append.1 hl with hl | hl
      · exact (h'.loops l hl).grows hgrows fun _ => rfl
      · obtain rfl := mem_singleton.1 hl
        refine ⟨?_, List.Pairwise.nil, ?_, fun _ => rfl, ?_, ?_, ?_, ?_⟩
        · simpa [setRunning] using hlt
        · intro e he
          cases he
        · exact fun hstarting => absurd rfl hstarting
        · intro o ho
          cases ho
        · intro record rest ho
          cases ho
        · intro c hc
          cases hc
    · intro x y l l' hx hy heq hl hl'
      rcases getElem?_concat_cases hx with hx | ⟨hxk, rfl⟩
      · rcases getElem?_concat_cases hy with hy | ⟨-, rfl⟩
        · exact h.alone hx hy heq hl hl'
        · exact absurd (hk l (mem_of_getElem? hx) heq) hl
      · rcases getElem?_concat_cases hy with hy | ⟨hyk, -⟩
        · exact absurd (hk l' (mem_of_getElem? hy) heq.symm) hl'
        · rw [hxk, hyk]
  · exact h

/-! ## The loops -/

example {l : PollLoop} (h : l.phase = .ended) : w.stepLoop opts x l (.poll x) = w := by simp only [stepLoop, h]

theorem hand_cases (x : Nat) (l : PollLoop) (records : List Nat) (done : LoopPhase) :
    w.hand x l records done = w.setLoop x { l with phase := done } ∨ ∃ record rest, records = record :: rest ∧
      w.hand x l records done = w.setLoop x { l with phase := .handling record rest, handed := l.handed ++ [record] } := by
  cases records with
  | nil => exact .inl rfl
  | cons record rest =>
    rw [hand]
    split
    · exact .inr ⟨record, rest, rfl, rfl⟩
    · exact .inl rfl

theorem loopOk_hand {records : List Nat} {done : LoopPhase} (hknown : l.consumer < w.consumers.length)
    (hascending : w.log.Pairwise (· < ·)) (hbound : ∀ r ∈ w.log, r < w.endOffset) (hsorted : l.handed.Pairwise (· ≤ ·))
    (hbelow : ∀ h ∈ l.handed, h < w.endOffset) (hdone : w.Done (w.offset l.consumer))
    (hhanded : ∀ h ∈ l.handed, ∀ r ∈ w.log, w.offset l.consumer ≤ r → h ≤ r)
    (hrecords : records <+: w.ahead (w.offset l.consumer)) (hphase : done = .polling ∨ ∃ c, done = .committing c ∧ w.Reached c) :
    ∃ l', w.hand x l records done = w.setLoop x l' ∧ l'.consumer = l.consumer ∧ w.LoopOk l' := by
  rcases w.hand_cases x l records done with heq | ⟨record, rest, rfl, heq⟩
  · refine ⟨_, heq, rfl, hknown, hsorted, hbelow, ?_, fun _ _ => ⟨hdone, hhanded⟩, ?_, ?_, ?_⟩
    · rintro hstarting
      rcases hphase with rfl | ⟨c, rfl, -⟩ <;> cases hstarting
    · rintro o ho
      rcases hphase with rfl | ⟨c, rfl, -⟩ <;> cases ho
    · rintro record rest ho
      rcases hphase with rfl | ⟨c, rfl, -⟩ <;> cases ho
    · rintro c hc
      rcases hphase with rfl | ⟨c', rfl, hreached⟩
      · cases hc
      · cases hc
        exact hreached
  · have hmem : record ∈ w.ahead (w.offset l.consumer) := hrecords.subset mem_cons_self
    obtain ⟨hlog, hle⟩ := mem_filter.1 hmem
    -- nothing that comes next is before the record
    have hfirst : ∀ r ∈ w.log, w.offset l.consumer ≤ r → record ≤ r := by
      intro r hr hge
      obtain ⟨more, hmore⟩ := hrecords
      have hr' : r ∈ w.ahead (w.offset l.consumer) := mem_filter.2 ⟨hr, by simpa using hge⟩
      have hpairs : (w.ahead (w.offset l.consumer)).Pairwise (· < ·) := hascending.filter _
      rw [← hmore] at hr' hpairs
      rcases mem_cons.1 hr' with rfl | hr'
      · exact Nat.le_refl r
      · exact le_of_lt ((pairwise_cons.1 hpairs).1 r hr')
    have hnot : ∀ {P : Prop}, LoopPhase.handling record rest = .starting → P := fun heq => by cases heq
    refine ⟨_, heq, rfl, hknown, ?_, ?_, hnot, fun _ _ => ⟨hdone, ?_⟩, ?_, ?_, ?_⟩
    · rw [pairwise_append]
      refine ⟨hsorted, pairwise_singleton _ _, fun e he r hr => ?_⟩
      obtain rfl := mem_singleton.1 hr
      exact hhanded e he r hlog (by simpa using hle)
    · intro e he
      rcases mem_append.1 he with he | he
      · exact hbelow e he
      · obtain rfl := mem_singleton.1 he
        exact hbound e hlog
    · intro e he r hr hge
      rcases mem_append.1 he with he | he
      · exact hhanded e he r hr hge
      · obtain rfl := mem_singleton.1 he
        exact hfirst r hr hge
    · intro o ho
      cases ho
    · intro record' rest' ho
      cases ho
      exact hrecords
    · intro c hc
      cases hc

theorem LoopOk.setPhase (h : w.LoopOk l) (hstarted : l.phase ≠ .starting) (hlive : l.phase ≠ .ended)
    {phase : LoopPhase} (hphase : phase = .polling ∨ phase = .ended ∨ phase = .fetching (w.offset l.consumer)) :
    w.LoopOk { l with phase } := by
  constructor
  · exact h.known
  · exact h.sorted
  · exact h.below
  · rintro hstarting
    rcases hphase with rfl | rfl | rfl <;> cases hstarting
  · exact fun _ _ => h.goes hstarted hlive
  · rintro o ho
    rcases hphase with rfl | rfl | rfl <;> cases ho
    rfl
  · rintro record rest ho
    rcases hphase with rfl | rfl | rfl <;> cases ho
  · rintro c hc
    rcases hphase with rfl | rfl | rfl <;> cases hc

section

variable (h : Inv opts w) (hx : w.loops[x]? = some l)
include h hx

theorem inv_setPhase (hstarted : l.phase ≠ .starting) (hlive : l.phase ≠ .ended) {phase : LoopPhase}
    (hphase : phase = .polling ∨ phase = .ended ∨ phase = .fetching (w.offset l.consumer)) :
    Inv opts (w.setLoop x { l with phase }) := by
  have hgrows : w.Grows (w.setLoop x { l with phase }) := .still
  have hl := ((h.loops l (mem_of_getElem? hx)).setPhase hstarted hlive hphase).grows hgrows fun _ => rfl
  exact h.update hx rfl hlive rfl hgrows rfl (fun _ _ => rfl) (fun _ hr => .inl hr) (fun _ hc => .inl hc) h.origin hl

theorem inv_notStarted (hphase : l.phase = .starting) : Inv opts (w.setLoop x { l with phase := .ended }) := by
  have hl := h.loops l (mem_of_getElem? hx)
  have hgrows : w.Grows (w.setLoop x { l with phase := .ended }) :=
    .still
  have hend : w.LoopOk { l with phase := .ended } := by
    refine ⟨hl.known, hl.sorted, hl.below, ?_, fun _ hlive => absurd rfl hlive, ?_, ?_, ?_⟩
    · exact fun _ => hl.first hphase
    · rintro o ho
      cases ho
    · rintro record rest ho
      cases ho
    · rintro c hc
      cases hc
  exact h.update hx rfl (by rw [hphase]; simp) rfl hgrows rfl (fun _ _ => rfl) (fun _ hr => .inl hr) (fun _ hc => .inl hc)
    h.origin (hend.grows hgrows fun _ => rfl)

theorem inv_started (hphase : l.phase = .starting) (hrestart : opts.fromBeginning = true ∨ w.committed.isSome = true ∨ w.base = none) :
    Inv opts (w.stepLoop opts x l (.started x true)) := by
  have hl := h.loops l (mem_of_getElem? hx)
  have hhanded := hl.first hphase
  -- where the loop starts, all records from the first start on have been completed
  have hstart : (w.base.getD (w.startOffset opts)) ≤ w.startOffset opts ∧ w.startOffset opts ≤ w.endOffset ∧
      ∀ r ∈ w.log, w.base.getD (w.startOffset opts) ≤ r → r < w.startOffset opts → r ∈ w.completed := by
    unfold startOffset
    cases hcommitted : w.committed with
    | some c =>
      obtain ⟨⟨b, hb, hle, hend, hdone⟩, -⟩ := h.committed c hcommitted
      rw [hb]
      exact ⟨hle, hend, hdone⟩
    | none =>
      cases hb : w.base with
      | none =>
        refine ⟨le_rfl, ?_, fun r _ hge hlt => absurd hlt (Nat.not_lt.2 hge)⟩
        simp only
        split
        · exact Nat.zero_le _
        · exact le_rfl
      | some b =>
        have hbeginning : opts.fromBeginning = true := by
          rcases hrestart with h | h | h
          · exact h
          · rw [hcommitted] at h
            cases h
          · rw [hb] at h
            cases h
        obtain rfl := h.origin hbeginning b hb
        simp only [hbeginning, if_true, Option.getD_some]
        exact ⟨Nat.le_refl 0, Nat.zero_le _, fun r _ _ hlt => absurd hlt (Nat.not_lt_zero r)⟩
  obtain ⟨w', hw'⟩ : ∃ w', w' = w.stepLoop opts x l (.started x true) := ⟨_, rfl⟩
  have heq : w' = (({ w with base := some (w.base.getD (w.startOffset opts)) } : ConsumerWorld).setOffset l.consumer
      (w.startOffset opts)).setLoop x { l with phase := .polling } := by
    rw [hw']
    simp only [stepLoop, hphase]
  rw [← hw']
  have hoffset : w'.offset l.consumer = w.startOffset opts := by
    rw [heq]
    exact offset_setOffset hl.known _
  have hlog : w'.log = w.log := by rw [heq]; rfl
  have hend : w'.endOffset = w.endOffset := by rw [heq]; rfl
  have hcompleted : w'.completed = w.completed := by rw [heq]; rfl
  have hbase : w'.base = some (w.base.getD (w.startOffset opts)) := by rw [heq]; rfl
  have hlength : w'.consumers.length = w.consumers.length := by
    rw [heq]
    exact length_setOffset _ _
  have hdone : w'.Done (w'.offset l.consumer) := by
    rw [hoffset]
    refine ⟨_, hbase, hstart.1, ?_, ?_⟩
    · rw [hend]
      exact hstart.2.1
    · rw [hlog, hcompleted]
      exact hstart.2.2
  have hgrows : w.Grows w' := by
    refine Grows.of_log hlength hlog hend ?_ ?_
    · intro b hb
      rw [hbase, hb, Option.getD_some]
    · intro r hr
      rwa [hcompleted]
  have hloops : w'.loops = w.loops.set x { l with phase := .polling } := by rw [heq]; rfl
  refine h.update hx hloops (by rw [hphase]; simp) rfl hgrows hlog ?_ ?_ ?_ ?_ ?_
  · intro k hk
    rw [heq]
    exact offset_setOffset_of_ne hk _
  · intro r hr
    rw [heq] at hr
    exact .inl hr
  · intro c hc
    rw [heq] at hc
    exact .inl hc
  · intro hbeginning b hb
    rw [hbase, Option.some.injEq] at hb
    cases hb' : w.base with
    | some b' =>
      rw [hb', Option.getD_some] at hb
      rw [← hb]
      exact h.origin hbeginning b' hb'
    | none =>
      have hnone : w.committed = none := by
        cases hcommitted : w.committed with
        | none => rfl
        | some c =>
          obtain ⟨⟨b'', hb'', -⟩, -⟩ := h.committed c hcommitted
          rw [hb'] at hb''
          cases hb''
      rw [hb', Option.getD_none, startOffset, hnone] at hb
      simp only [hbeginning, if_true] at hb
      exact hb.symm
  · refine ⟨by rw [hlength]; exact hl.known, hl.sorted, ?_, ?_, fun _ _ => ⟨hdone, ?_⟩, ?_, ?_, ?_⟩
    · simp [hhanded]
    · rintro hstarting
      cases hstarting
    · simp [hhanded]
    · rintro o ho
      cases ho
    · rintro record rest ho
      cases ho
    · rintro c hc
      cases hc

theorem inv_hand {w₁ : ConsumerWorld} (hlive : l.phase ≠ .ended)
    (hgrows : w.Grows w₁) (hloops : w₁.loops = w.loops) (hlog : w₁.log = w.log) (hend : w₁.endOffset = w.endOffset)
    (hbase : w₁.base = w.base) (hcommitted : w₁.committed = w.committed)
    (hoffset : ∀ k, k ≠ l.consumer → w₁.offset k = w.offset k)
    (hfetched : ∀ r ∈ w₁.fetched, r ∈ w.fetched ∨ r ∈ w.log ∧ ∃ b, w.base = some b ∧ b ≤ r)
    (hdone : w₁.Done (w₁.offset l.consumer)) (hhanded : ∀ e ∈ l.handed, ∀ r ∈ w₁.log, w₁.offset l.consumer ≤ r → e ≤ r)
    {records : List Nat} (hrecords : records <+: w₁.ahead (w₁.offset l.consumer)) {done : LoopPhase}
    (hphase : done = .polling ∨ ∃ c, done = .committing c ∧ w₁.Reached c) : Inv opts (w₁.hand x l records done) := by
  have hl := h.loops l (mem_of_getElem? hx)
  have hascending : w₁.log.Pairwise (· < ·) := by
    rw [hlog]
    exact h.ascending
  have hbound : ∀ r ∈ w₁.log, r < w₁.endOffset := by
    rw [hlog, hend]
    exact h.bound
  have hbelow : ∀ e ∈ l.handed, e < w₁.endOffset := by
    rw [hend]
    exact hl.below
  obtain ⟨l', heq, hconsumer, hl'⟩ := loopOk_hand (x := x) (lt_of_lt_of_le hl.known hgrows.consumers) hascending hbound
    hl.sorted hbelow hdone hhanded hrecords hphase
  rw [heq]
  have hset : w₁.Grows (w₁.setLoop x l') := .still
  have hall : w.Grows (w₁.setLoop x l') :=
    ⟨hgrows.consumers, hgrows.log, hgrows.endOffset, hgrows.base, hgrows.completed⟩
  refine h.update hx ?_ hlive hconsumer hall hlog hoffset hfetched ?_ ?_ (hl'.grows hset fun _ => rfl)
  · show w₁.loops.set x l' = w.loops.set x l'
    rw [hloops]
  · intro c hc
    left
    rw [← hcommitted]
    exact hc
  · intro hbeginning b hb
    apply h.origin hbeginning b
    rw [← hbase]
    exact hb

theorem inv_fetched {o : Nat} (hphase : l.phase = .fetching o) (n : Nat) : Inv opts (w.stepLoop opts x l (.fetched x n)) := by
  have hl := h.loops l (mem_of_getElem? hx)
  have hlive : l.phase ≠ .ended := by
    rw [hphase]
    simp
  obtain ⟨hdone, hhanded⟩ := hl.goes (by rw [hphase]; simp) hlive
  obtain rfl := hl.fetching o hphase
  have hgrows : w.Grows { w with fetched := w.fetched ++ (w.ahead (w.offset l.consumer)).take n } :=
    .still
  have heq : w.stepLoop opts x l (.fetched x n) = { w with fetched := w.fetched ++ (w.ahead (w.offset l.consumer)).take n }.hand x l
      ((w.ahead (w.offset l.consumer)).take n) .polling := by
    simp only [stepLoop, hphase, ahead]
  rw [heq]
  refine inv_hand h hx hlive hgrows rfl rfl rfl rfl rfl (fun _ _ => rfl) ?_ (hdone.grows hgrows) hhanded (List.take_prefix n _) (.inl rfl)
  intro r hr
  rcases mem_append.1 hr with hr | hr
  · exact .inl hr
  · obtain ⟨hmem, hge⟩ := mem_filter.1 ((List.take_prefix n _).subset hr)
    obtain ⟨b, hb, hle, -⟩ := hdone
    refine .inr ⟨hmem, b, hb, ?_⟩
    simp only [decide_eq_true_eq] at hge
    omega

theorem inv_handled {record : Nat} {rest : List Nat}
    (hphase : l.phase = .handling record rest) : Inv opts (w.stepLoop opts x l (.handled x true)) := by
  have hl := h.loops l (mem_of_getElem? hx)
  have hlive : l.phase ≠ .ended := by
    rw [hphase]
    simp
  obtain ⟨hdone, hhanded⟩ := hl.goes (by rw [hphase]; simp) hlive
  have hrecords := hl.handling record rest hphase
  obtain ⟨hmem, hge⟩ := mem_filter.1 (hrecords.subset mem_cons_self)
  simp only [decide_eq_true_eq] at hge
  obtain ⟨more, hmore⟩ := hrecords
  have hpairs : (w.ahead (w.offset l.consumer)).Pairwise (· < ·) := h.ascending.filter _
  -- what comes next is the record itself, or behind it
  have hnext : ∀ r ∈ w.log, w.offset l.consumer ≤ r → r = record ∨ record < r := by
    intro r hr hle
    have hr' : r ∈ w.ahead (w.offset l.consumer) := mem_filter.2 ⟨hr, by simpa using hle⟩
    rw [← hmore] at hr' hpairs
    rcases mem_cons.1 hr' with rfl | hr'
    · exact .inl rfl
    · exact .inr ((pairwise_cons.1 hpairs).1 r hr')
  obtain ⟨w', hw'⟩ : ∃ w' : ConsumerWorld, w' = { w.setOffset l.consumer (record + 1) with completed := w.completed ++ [record] } :=
    ⟨_, rfl⟩
  have heq : w.stepLoop opts x l (.handled x true) = w'.hand x l rest (behindBatch opts (record + 1)) := by
    rw [hw']
    simp only [stepLoop, hphase]
  have hoffset : w'.offset l.consumer = record + 1 := by
    rw [hw']
    exact offset_setOffset hl.known _
  have hlog : w'.log = w.log := by rw [hw']; rfl
  have hend : w'.endOffset = w.endOffset := by rw [hw']; rfl
  have hbase : w'.base = w.base := by rw [hw']; rfl
  have hcompleted : w'.completed = w.completed ++ [record] := by rw [hw']
  have hgrows : w.Grows w' := by
    refine Grows.of_log ?_ hlog hend (fun b hb => by rw [hbase, hb]) ?_
    · rw [hw']
      exact length_setOffset _ _
    · intro r hr
      rw [hcompleted]
      exact mem_append_left _ hr
  have hdone' : w'.Done (record + 1) := by
    obtain ⟨b, hb, hle, -, hall⟩ := hdone
    refine ⟨b, by rw [hbase, hb], by omega, ?_, ?_⟩
    · rw [hend]
      exact h.bound record hmem
    · intro r hr hbr hlt
      rw [hlog] at hr
      rw [hcompleted, mem_append, mem_singleton]
      rcases Nat.lt_or_ge r (w.offset l.consumer) with hlt' | hge'
      · exact .inl (hall r hr hbr hlt')
      · rcases hnext r hr hge' with rfl | hgt
        · exact .inr rfl
        · omega
  rw [heq]
  refine inv_hand h hx hlive hgrows (by rw [hw']; rfl) hlog hend hbase (by rw [hw']; rfl) ?_ ?_ ?_ ?_ ?_ ?_
  · intro k hk
    rw [hw']
    exact offset_setOffset_of_ne hk _
  · intro r hr
    left
    rw [hw'] at hr
    exact hr
  · rw [hoffset]
    exact hdone'
  · intro e he r hr hle
    rw [hlog] at hr
    exact hhanded e he r hr (by omega)
  · -- behind the record, the rest comes next
    rw [hoffset, ahead, hlog]
    have hahead : w.log.filter (fun r => decide (record + 1 ≤ r)) = rest ++ more := by
      have hfilter : w.log.filter (fun r => decide (record + 1 ≤ r)) =
          (w.ahead (w.offset l.consumer)).filter fun r => decide (record + 1 ≤ r) := by
        rw [ahead, filter_filter]
        apply filter_congr
        intro r _
        rcases Nat.lt_or_ge record r with hgt | hle
        · simp [show record + 1 ≤ r from hgt, show w.offset l.consumer ≤ r by omega]
        · simp [show ¬ record + 1 ≤ r by omega]
      rw [← hmore] at hfilter hpairs
      rw [hfilter, cons_append, filter_cons_of_neg (by simp)]
      apply filter_eq_self.2
      intro r hr
      simpa using Nat.succ_le_of_lt ((pairwise_cons.1 hpairs).1 r hr)
    rw [hahead]
    exact prefix_append rest more
  · unfold behindBatch
    split
    · refine .inr ⟨_, rfl, hdone', record, ?_, rfl⟩
      rw [hcompleted]
      simp
    · exact .inl rfl

theorem inv_committed {c : Nat} (hphase : l.phase = .committing c)
    (applied : Bool) : Inv opts (w.stepLoop opts x l (.committed x applied)) := by
  have hl := h.loops l (mem_of_getElem? hx)
  have hlive : l.phase ≠ .ended := by
    rw [hphase]
    simp
  have heq : w.stepLoop opts x l (.committed x applied) =
      { w.setLoop x { l with phase := .polling } with committed := if applied then some c else w.committed } := by
    simp only [stepLoop, hphase]
  rw [heq]
  have hgrows : w.Grows { w.setLoop x { l with phase := .polling } with
      committed := if applied then some c else w.committed } := .still
  have hl' := (hl.setPhase (by rw [hphase]; simp) hlive (.inl rfl)).grows hgrows fun _ => rfl
  refine h.update hx rfl hlive rfl hgrows rfl (fun _ _ => rfl) (fun _ hr => .inl hr) ?_ h.origin hl'
  intro c' hc'
  cases applied with
  | false => exact .inl hc'
  | true =>
    obtain rfl : c = c' := Option.some.inj hc'
    exact .inr (hl.committing c hphase)

end

theorem inv_step {e : ConsumerEvent} (h : Inv opts w) (he : Restarts opts w e) : Inv opts (step opts w e) := by
  -- an answer to a loop that is not there, or not waiting for it, changes nothing
  have hloop : ∀ (x : Nat) (e : ConsumerEvent), (∀ l, w.loops[x]? = some l → Inv opts (w.stepLoop opts x l e)) →
      Inv opts ((w.loops[x]?.map fun l => w.stepLoop opts x l e).getD w) := by
    intro x e hstep
    cases hx : w.loops[x]? with
    | none => exact h
    | some l => exact hstep l hx
  cases e with
  | append gap => exact inv_append h gap
  | create => exact inv_create h
  | run k => exact inv_run h he
  | stop k => exact inv_setRunning h k false
  | started x ok =>
    refine hloop x _ fun l hx => ?_
    cases hphase : l.phase with
    | starting =>
      cases ok with
      | true => exact inv_started h hx hphase he
      | false =>
        simp only [stepLoop, hphase]
        exact inv_notStarted h hx hphase
    | _ => simpa only [stepLoop, hphase] using h
  | poll x =>
    refine hloop x _ fun l hx => ?_
    cases hphase : l.phase with
    | polling =>
      simp only [stepLoop, hphase]
      apply inv_setPhase h hx (by rw [hphase]; simp) (by rw [hphase]; simp)
      split
      · exact .inr (.inr rfl)
      · exact .inr (.inl rfl)
    | _ => simpa only [stepLoop, hphase] using h
  | fetched x n =>
    refine hloop x _ fun l hx => ?_
    cases hphase : l.phase with
    | fetching o => exact inv_fetched h hx hphase n
    | _ => simpa only [stepLoop, hphase] using h
  | fetchFailed x =>
    refine hloop x _ fun l hx => ?_
    cases hphase : l.phase with
    | fetching o =>
      simp only [stepLoop, hphase]
      exact inv_setPhase h hx (by rw [hphase]; simp) (by rw [hphase]; simp) (.inl rfl)
    | _ => simpa only [stepLoop, hphase] using h
  | handled x ok =>
    refine hloop x _ fun l hx => ?_
    cases hphase : l.phase with
    | handling record rest =>
      cases ok with
      | true => exact inv_handled h hx hphase
      | false =>
        simp only [stepLoop, hphase]
        exact inv_setPhase h hx (by rw [hphase]; simp) (by rw [hphase]; simp) (.inl rfl)
    | _ => simpa only [stepLoop, hphase] using h
  | committed x applied =>
    refine hloop x _ fun l hx => ?_
    cases hphase : l.phase with
    | committing c => exact inv_committed h hx hphase applied
    | _ => simpa only [stepLoop, hphase] using h

/-- In every state of a run with such restarts the consumer is at least once and in order. -/
theorem atLeastOnce_of_restarts (opts : ConsumerOptions) (es : List ConsumerEvent)
    (h : Guarded (step opts) (Restarts opts) {} es) : (run (step opts) {} es).AtLeastOnce :=
  (run_invariant_of_guarded (step opts) (fun _ _ hw he => inv_step hw he) es h inv_init).atLeastOnce

/-- A record whose handler fails, a stop and a restart that finds the first record committed. -/
theorem atLeastOnce_of_restarts_retried :
    (run (step {}) {} [.append 0, .append 0, .create, .run 0, .started 0 true, .poll 0, .fetched 0 1, .handled 0 true,
      .committed 0 true, .poll 0, .fetched 0 1, .handled 0 false, .stop 0, .poll 0, .create, .run 1, .started 1 true, .poll 1,
      .fetched 1 1, .handled 1 true, .committed 1 true]).AtLeastOnce := by
  apply atLeastOnce_of_restarts
  refine ⟨trivial, trivial, trivial, ?_, .inl rfl, trivial, trivial, trivial, trivial, trivial, trivial, trivial, trivial, trivial,
    trivial, ?_, .inl rfl, trivial, trivial, trivial, trivial, trivial⟩
  · intro l hl
    cases hl
  · change ∀ l ∈ _, _ = 1 → _ = LoopPhase.ended
    decide

/-- From behind the latest record, with no offset committed, a restart is past a record whose handler has failed; and a
consumer that is run again while its loop goes on hands a record after a later one. -/
theorem restart_counterexample :
    (¬ ∀ es, (run (step { fromBeginning := false }) {} es).AtLeastOnce) ∧ ¬ ∀ es, (run (step {}) {} es).AtLeastOnce := by
  constructor
  · intro h
    obtain ⟨b, hb, hskip⟩ := (h [.create, .run 0, .started 0 true, .append 0, .poll 0, .fetched 0 1, .handled 0 false,
      .stop 0, .create, .run 1, .started 1 true]).noSkip { consumer := 1, phase := .polling } (by decide) (by decide)
      (by decide)
    have h0 : b = 0 := by
      change some 0 = some b at hb
      simpa using hb.symm
    exact absurd (hskip 0 (by decide) (by omega) (by decide)) (by decide)
  · intro h
    have horder := (h [.append 0, .append 0, .create, .run 0, .started 0 true, .poll 0, .fetched 0 2, .handled 0 true,
      .stop 0, .run 0, .started 1 true, .handled 0 false, .poll 0, .fetched 0 1]).order
      { consumer := 0, phase := .handling 0 [], handed := [0, 1, 0] } (by decide)
    exact absurd horder (by decide)

end ConsumerWorld

end StreetJS.Kafka
