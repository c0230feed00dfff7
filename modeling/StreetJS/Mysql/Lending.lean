/-
When the MySQL pool keeps its promises: along every run whose steps are steady, each connection is in one pair of
hands, a caller waits only while every connection there may be is lent or is being created, and `close` leaves nothing
open. A step may leave one connection loose, between two hands, and room for one more; the step closes both again.
-/
import StreetJS.Lib.ListSet
import StreetJS.Mysql.Calls

namespace StreetJS.Mysql

open StreetJS.Lib MysqlPool List OrderedMap
open Pool (PoolOptions ConnStatus)
open Option (some.inj)
open Prod (fst)

/-- The borrower releases its connection when it goes on. -/
def Use.ends : Use → Bool → Bool
  | .caller, _ | .query, _ | .streaming, _ | .rollingBack, _ => true
  | .committing, succeeds => succeeds
  | .opening, _ | .starting, _ | .working, _ | .abandoned, _ => false

/-- Warm-ups fit into the pool. Nobody calls `acquire`, and no sweep comes, between the arrival of a connection and the
continuation of its creator, and no room that a warm-up needs is taken. While a caller waits, no creation fails, no
warm-up arrives, and no dead connection is released before the creators have gone on. A connection is released ready or
dead, runs commands only while it is lent, and streams begin on ready ones. Nothing is being created when the pool is
closed, and no warm-up begins after. -/
def Steady (opts : PoolOptions) (pool : MysqlPool) : PoolEvent → Prop
  | .warmUp => pool.closed = false ∧ pool.connections.length + pool.connecting.length + opts.minConnections ≤ opts.maxConnections
  | .acquire _ _ => pool.closed = false → pool.created = [] ∧ pool.finishing = 0 ∧
    (pool.candidate = none → pool.hasRoom opts = true → pool.connections.length + pool.connecting.length < opts.maxConnections)
  | .connected conn _ => pool.connecting.get conn = some .warmUp → pool.waitQueue = []
  | .connectFailed conn _ => (pool.connecting.get conn).isSome → pool.waitQueue = []
  | .creatorGoesOn _ => True
  | .finish => True
  | .goOn caller succeeds _ => ∀ l, pool.lent.find? (·.caller = caller) = some l → (l.use = .opening → pool.status l.conn = .ready) ∧
    (l.use.ends succeeds = true → pool.status l.conn ≠ .busy ∧
      (pool.status l.conn = .closed → pool.waitQueue ≠ [] → pool.created = [] ∧ pool.finishing = 0))
  | .sweepIdle _ => pool.created = []
  | .acquireTimeout _ => True
  | .setStatus conn st => st = .busy → pool.Held conn
  | .close => pool.connecting = [] ∧ pool.created = []
  | .closeDone => True

/-- A creation that `pendingCreations` counts. -/
def counted (x : Nat × Purpose) : Bool := decide (x.2 ≠ .warmUp)

/-- What steady steps keep, with one connection that may be loose, and room for `short` more. -/
structure Stock (opts : PoolOptions) (pool : MysqlPool) (loose : Option Nat) (short : Nat) : Prop where
  nodup : pool.connections.Nodup
  below : ∀ c ∈ pool.connections, c < pool.nextConnection
  apart : ∀ c ∈ pool.connections, c ∉ pool.connecting.map fst
  connecting : ∀ x ∈ pool.connecting, x.1 < pool.nextConnection
  created : ∀ x ∈ pool.created, x.1 ∈ pool.connections ∧ x.2 ≠ .warmUp
  pending : pool.pendingCreations = pool.connecting.countP counted + pool.created.length + pool.finishing
  bounded : pool.connections.length + pool.connecting.length + short ≤ opts.maxConnections
  known : ∀ c < pool.nextConnection, c ∈ pool.connections ∨ c ∈ pool.connecting.map fst ∨ pool.status c = .closed
  exclusive : (pool.lent.map Lent.conn).Nodup
  held : ∀ l ∈ pool.lent, l.conn < pool.nextConnection ∧ l.conn ∉ pool.connecting.map fst ∧ l.conn ∉ pool.created.map fst
  inUse : ∀ c ∈ pool.connections, some c ≠ loose → (pool.inUse c = true ↔ pool.Held c)
  idle : ∀ c ∈ pool.connections, some c ≠ loose → ¬ pool.Held c → pool.status c ≠ .busy
  slots : pool.closed = false → pool.waitQueue ≠ [] → pool.connections.length + pool.connecting.length + short = opts.maxConnections ∧
      ∀ c ∈ pool.connections, some c ≠ loose → pool.Held c ∨ c ∈ pool.created.map fst
  swept : pool.sweptLent = []
  abandoned : ∀ l ∈ pool.lent, l.use ≠ .abandoned
  closed : pool.closed = true → pool.connecting = [] ∧ pool.created = [] ∧ ∀ c < pool.nextConnection, pool.status c = .closed
  afterClose : ∀ x ∈ pool.settled, x.closed = true → ∃ error, x.result = .error error

theorem stock_empty (opts : PoolOptions) : Stock opts {} none 0 := by
  constructor <;> simp

section

variable {opts : PoolOptions} {pool : MysqlPool} {loose : Option Nat} {short : Nat} {conn : Nat}

/-- A connection may be counted as loose. -/
theorem Stock.loosen (h : Stock opts pool none short) (conn : Nat) : Stock opts pool (some conn) short :=
  { h with
    inUse := fun c hc _ => h.inUse c hc nofun
    idle := fun c hc _ => h.idle c hc nofun
    slots := fun hopen hqueue => ⟨(h.slots hopen hqueue).1, fun c hc _ => (h.slots hopen hqueue).2 c hc nofun⟩ }

theorem Stock.withRoom (h : Stock opts pool loose 0)
    (hroom : pool.connections.length + pool.connecting.length < opts.maxConnections) : Stock opts pool loose 1 :=
  { h with
    bounded := hroom
    slots := fun hopen hqueue => by
      have := (h.slots hopen hqueue).1
      omega }

theorem Stock.closeRoom (h : Stock opts pool loose 1) (hqueue : pool.closed = false → pool.waitQueue = []) : Stock opts pool loose 0 :=
  { h with
    bounded := by have := h.bounded; omega
    slots := fun hopen hne => absurd (hqueue hopen) hne }

theorem Stock.reject (h : Stock opts pool loose short) (caller : Nat) (error : String) : Stock opts (pool.reject caller error) loose short :=
  { h with
    afterClose := fun x hx hclosed => by
      rcases mem_append.1 hx with hx | hx
      · exact h.afterClose x hx hclosed
      · rw [mem_singleton.1 hx]
        exact ⟨error, rfl⟩ }

theorem held_hand {c caller : Nat} : (pool.hand conn caller).Held c ↔ c = conn ∨ pool.Held c := by
  constructor
  · rintro ⟨l, hl, rfl⟩
    rcases mem_cons.1 hl with rfl | hl
    · exact .inl rfl
    · exact .inr ⟨l, hl, rfl⟩
  · rintro (rfl | ⟨l, hl, rfl⟩)
    · exact ⟨_, mem_cons_self, rfl⟩
    · exact ⟨l, mem_cons_of_mem _ hl, rfl⟩

theorem Stock.hand (h : Stock opts pool (some conn) short) (hin : conn ∈ pool.connections) (hfree : ¬ pool.Held conn)
    (hcreated : conn ∉ pool.created.map fst) (hopen : pool.closed = false) (caller : Nat) :
    Stock opts (pool.hand conn caller) none short :=
  { h with
    exclusive := by
      refine nodup_cons.2 ⟨fun hmem => hfree ?_, h.exclusive⟩
      obtain ⟨l, hl, hconn⟩ := mem_map.1 hmem
      exact ⟨l, hl, hconn⟩
    held := fun l hl => by
      rcases mem_cons.1 hl with rfl | hl
      · exact ⟨h.below conn hin, h.apart conn hin, hcreated⟩
      · exact h.held l hl
    inUse := fun c hc _ => by
      rw [held_hand]
      show (if c = conn then true else pool.inUse c) = true ↔ _
      by_cases hcc : c = conn
      · simp [hcc]
      · rw [if_neg hcc, h.inUse c hc fun heq => hcc (some.inj heq)]
        simp [hcc]
    idle := fun c hc _ hnot => by
      rw [held_hand] at hnot
      exact h.idle c hc (fun heq => hnot (.inl (some.inj heq))) fun hheld => hnot (.inr hheld)
    slots := fun hopen' hqueue => by
      obtain ⟨htotal, hall⟩ := h.slots hopen' hqueue
      refine ⟨htotal, fun c hc _ => ?_⟩
      rw [held_hand]
      by_cases hcc : c = conn
      · exact .inl (.inl hcc)
      · exact (hall c hc fun heq => hcc (some.inj heq)).imp_left .inr
    abandoned := fun l hl => by
      rcases mem_cons.1 hl with rfl | hl
      · cases pool.kinds.getD caller .caller <;> rintro ⟨⟩
      · exact h.abandoned l hl
    afterClose := fun x hx hclosed => by
      rcases mem_append.1 hx with hx | hx
      · exact h.afterClose x hx hclosed
      · rw [mem_singleton.1 hx] at hclosed
        rw [hopen] at hclosed
        cases hclosed }

theorem Stock.serveWaiter (h : Stock opts pool (some conn) 0) (hin : conn ∈ pool.connections) (hfree : ¬ pool.Held conn)
    (hcreated : conn ∉ pool.created.map fst) (hopen : pool.closed = false) (huse : pool.inUse conn = false)
    (hstatus : pool.status conn ≠ .busy) : Stock opts (pool.serveWaiter conn) none 0 := by
  unfold MysqlPool.serveWaiter
  cases hqueue : pool.waitQueue with
  | nil =>
    refine { h with inUse := fun c hc _ => ?_, idle := fun c hc _ hnot => ?_, slots := fun _ hne => absurd hqueue hne }
    · by_cases hcc : c = conn
      · rw [hcc, huse]
        simp [hfree]
      · exact h.inUse c hc fun heq => hcc (some.inj heq)
    · by_cases hcc : c = conn
      · rw [hcc]
        exact hstatus
      · exact h.idle c hc (fun heq => hcc (some.inj heq)) hnot
  | cons waiter waiters =>
    have hleft : Stock opts { pool with waitQueue := waiters } (some conn) 0 :=
      { h with slots := fun hopen' _ => h.slots hopen' (by rw [hqueue]; rintro ⟨⟩) }
    exact hleft.hand hin hfree hcreated hopen waiter

theorem Stock.removeConnection (h : Stock opts pool (some conn) 0) (hin : conn ∈ pool.connections)
    (hclosed : pool.status conn = .closed) (hcreated : conn ∉ pool.created.map fst) :
    Stock opts (pool.removeConnection conn) none 1 := by
  have hlength := length_erase_of_mem hin
  have hpos := length_pos_of_mem hin
  have hrest : ∀ c ∈ pool.connections.erase conn, c ∈ pool.connections ∧ some c ≠ some conn := fun c hc => by
    have := (List.Nodup.mem_erase_iff h.nodup).1 hc
    exact ⟨this.2, fun heq => this.1 (some.inj heq)⟩
  refine { h with
    nodup := h.nodup.erase _
    below := fun c hc => h.below c (hrest c hc).1
    apart := fun c hc => h.apart c (hrest c hc).1
    created := fun x hx => ⟨?_, (h.created x hx).2⟩
    bounded := ?_
    known := fun c hc => ?_
    inUse := fun c hc _ => h.inUse c (hrest c hc).1 (hrest c hc).2
    idle := fun c hc _ => h.idle c (hrest c hc).1 (hrest c hc).2
    slots := fun hopen hqueue => ⟨?_, fun c hc _ => (h.slots hopen hqueue).2 c (hrest c hc).1 (hrest c hc).2⟩ }
  · refine (List.Nodup.mem_erase_iff h.nodup).2 ⟨fun heq => hcreated ?_, (h.created x hx).1⟩
    exact mem_map.2 ⟨x, hx, heq⟩
  · have := h.bounded
    show (pool.connections.erase conn).length + pool.connecting.length + 1 ≤ _
    omega
  · rcases h.known c hc with hc' | hrest'
    · by_cases hcc : c = conn
      · rw [hcc]
        exact .inr (.inr hclosed)
      · exact .inl ((List.Nodup.mem_erase_iff h.nodup).2 ⟨hcc, hc'⟩)
    · exact .inr hrest'
  · have := (h.slots hopen hqueue).1
    show (pool.connections.erase conn).length + pool.connecting.length + 1 = _
    omega

theorem Stock.createConnection (h : Stock opts pool loose 1) (hopen : pool.closed = false) (purpose : Purpose)
    {pending : Nat} (hpending : pending = pool.pendingCreations + if purpose = .warmUp then 0 else 1) :
    Stock opts ({ pool with pendingCreations := pending }.createConnection purpose) loose 0 := by
  have hkeys : (pool.connecting ++ [(pool.nextConnection, purpose)]).map fst =
      pool.connecting.map fst ++ [pool.nextConnection] := by rw [map_append]; rfl
  have hlength : (pool.connecting ++ [(pool.nextConnection, purpose)]).length = pool.connecting.length + 1 := by
    rw [length_append]; rfl
  have hnew : ∀ {c}, c < pool.nextConnection → c ∉ pool.connecting.map fst →
      c ∉ (pool.connecting ++ [(pool.nextConnection, purpose)]).map fst := fun {c} hlt hnot hmem => by
    rw [hkeys, mem_append, mem_singleton] at hmem
    rcases hmem with hmem | rfl
    · exact hnot hmem
    · omega
  exact { h with
    below := fun c hc => Nat.lt_succ_of_lt (h.below c hc)
    apart := fun c hc => hnew (h.below c hc) (h.apart c hc)
    connecting := fun x hx => by
      rcases mem_append.1 hx with hx | hx
      · exact Nat.lt_succ_of_lt (h.connecting x hx)
      · rw [mem_singleton.1 hx]
        exact Nat.lt_succ_self _
    pending := by
      show pending = (pool.connecting ++ [(pool.nextConnection, purpose)]).countP _ + pool.created.length + pool.finishing
      rw [countP_append, hpending, h.pending, countP_singleton]
      by_cases hwarm : purpose = .warmUp
      · simp [hwarm, counted]
      · have hcounted : counted (pool.nextConnection, purpose) = true := decide_eq_true hwarm
        rw [if_neg hwarm, if_pos hcounted]
        omega
    bounded := by
      have := h.bounded
      show pool.connections.length + (pool.connecting ++ [(pool.nextConnection, purpose)]).length + 0 ≤ _
      omega
    known := fun c hc => by
      show _ ∨ c ∈ (pool.connecting ++ [(pool.nextConnection, purpose)]).map fst ∨ _
      rw [hkeys, mem_append, mem_singleton]
      by_cases hcc : c = pool.nextConnection
      · exact .inr (.inl (.inr hcc))
      · have hlt : c < pool.nextConnection := by
          have : c < pool.nextConnection + 1 := hc
          omega
        rcases h.known c hlt with hc | hc | hc
        · exact .inl hc
        · exact .inr (.inl (.inl hc))
        · exact .inr (.inr hc)
    held := fun l hl => ⟨Nat.lt_succ_of_lt (h.held l hl).1, hnew (h.held l hl).1 (h.held l hl).2.1, (h.held l hl).2.2⟩
    slots := fun hopen' hqueue => by
      obtain ⟨htotal, hall⟩ := h.slots hopen' hqueue
      refine ⟨?_, hall⟩
      show pool.connections.length + (pool.connecting ++ [(pool.nextConnection, purpose)]).length + 0 = _
      omega
    closed := fun hclosed => Bool.noConfusion (hopen.symm.trans hclosed) }

theorem Stock.create (h : Stock opts pool loose 1) (hopen : pool.closed = false) {purpose : Purpose}
    (hp : purpose ≠ .warmUp) : Stock opts (pool.create purpose) loose 0 :=
  h.createConnection hopen purpose (by rw [if_neg hp])

/-! ## The steps -/

theorem candidate_spec (h : pool.candidate = some conn) : conn ∈ pool.connections ∧
    (pool.status conn = .closed ∨ pool.inUse conn = false ∧ pool.status conn = .ready) := by
  refine ⟨mem_of_find?_eq_some h, ?_⟩
  have := find?_some h
  simpa only [Bool.or_eq_true, decide_eq_true_eq, Bool.and_eq_true, Bool.not_eq_true'] using this

theorem candidate_none (h : pool.candidate = none) {c : Nat} (hc : c ∈ pool.connections) :
    pool.status c ≠ .closed ∧ (pool.inUse c = true ∨ pool.status c ≠ .ready) := by
  have := find?_eq_none.1 h c hc
  simp only [Bool.or_eq_true, decide_eq_true_eq, Bool.and_eq_true, Bool.not_eq_true', not_or, not_and] at this
  refine ⟨this.1, ?_⟩
  cases huse : pool.inUse c with
  | true => exact .inl rfl
  | false => exact .inr (this.2 huse)

theorem pending_le (h : Stock opts pool loose short) (hcreated : pool.created = []) (hfinishing : pool.finishing = 0) :
    pool.pendingCreations ≤ pool.connecting.length := by
  have hcount : pool.connecting.countP counted ≤ pool.connecting.length := countP_le_length
  have := h.pending
  rw [hcreated, hfinishing, length_nil] at this
  omega

theorem Stock.enqueue (h : Stock opts pool none 0) (caller : Nat)
    (hfull : opts.maxConnections ≤ pool.connections.length + pool.connecting.length)
    (hall : ∀ c ∈ pool.connections, pool.Held c) : Stock opts (pool.enqueue caller) none 0 := by
  unfold MysqlPool.enqueue
  split
  · exact h.reject _ _
  · have := h.bounded
    refine { h with slots := fun _ _ => ⟨?_, fun c hc _ => .inl (hall c hc)⟩ }
    show pool.connections.length + pool.connecting.length + 0 = opts.maxConnections
    omega

theorem Stock.acquire (h : Stock opts pool none 0) {kind : BorrowKind} {now : Int}
    (hg : Steady opts pool (.acquire kind now)) : Stock opts (pool.acquire opts kind now) none 0 := by
  have hcalled : Stock opts { pool with kinds := pool.kinds ++ [kind] } none 0 := { h with }
  unfold MysqlPool.acquire
  simp only []
  split
  · exact hcalled.reject _ _
  · rename_i hopen
    have hopen : pool.closed = false := by simpa using hopen
    obtain ⟨hcreated, hfinishing, hwarm⟩ := hg hopen
    have hpending := pending_le h hcreated hfinishing
    have hbound := h.bounded
    split
    · rename_i conn hcand
      obtain ⟨hin, hkind⟩ := candidate_spec hcand
      have hnot : conn ∉ pool.created.map fst := by rw [hcreated]; rintro ⟨⟩
      split
      · -- a dead connection leaves room for one more
        rename_i hdead
        have hremoved := (hcalled.loosen conn).removeConnection hin hdead hnot
        unfold MysqlPool.createOrWait
        have hlength := length_erase_of_mem hin
        have hpos := length_pos_of_mem hin
        rw [if_pos]
        · exact hremoved.create hopen nofun
        · refine decide_eq_true ?_
          show (pool.connections.erase conn).length + pool.pendingCreations < opts.maxConnections
          have hlength : (pool.connections.erase conn).length = pool.connections.length - 1 := hlength
          have hpos : 0 < pool.connections.length := hpos
          omega
      · rename_i hlive
        obtain ⟨huse, -⟩ := hkind.resolve_left hlive
        have hfree : ¬ pool.Held conn := fun hheld => by
          rw [(h.inUse conn hin nofun).2 hheld] at huse
          cases huse
        have htouched : Stock opts { pool with
            kinds := pool.kinds ++ [kind], lastUsed := fun c => if c = conn then now else pool.lastUsed c } none 0 :=
          { h with }
        exact (htouched.loosen conn).hand hin hfree hnot hopen _
    · rename_i hcand
      unfold MysqlPool.createOrWait
      split
      · rename_i hroom
        exact (hcalled.withRoom (hwarm hcand hroom)).create hopen nofun
      · rename_i hroom
        refine hcalled.enqueue _ ?_ fun c hc => ?_
        · have hroom : ¬ pool.connections.length + pool.pendingCreations < opts.maxConnections := fun hlt =>
            hroom (decide_eq_true hlt)
          show opts.maxConnections ≤ pool.connections.length + pool.connecting.length
          omega
        · obtain ⟨hlive, hbusy⟩ := candidate_none hcand hc
          by_contra hfree
          rcases hbusy with huse | hready
          · exact hfree ((h.inUse c hc nofun).1 huse)
          · have hidle := h.idle c hc nofun hfree
            cases hstatus : pool.status c with
            | ready => exact hready hstatus
            | busy => exact hidle hstatus
            | closed => exact hlive hstatus

theorem Stock.createMany (n : Nat) : ∀ {pool : MysqlPool}, Stock opts pool none 0 → pool.closed = false →
    pool.connections.length + pool.connecting.length + n ≤ opts.maxConnections → Stock opts (pool.createMany n) none 0 := by
  induction n with
  | zero => exact fun h _ _ => h
  | succ n ih =>
    intro pool h hopen hroom
    have hone : Stock opts (pool.createConnection .warmUp) none 0 :=
      (h.withRoom (by omega)).createConnection hopen .warmUp rfl
    refine ih hone hopen ?_
    show pool.connections.length + (pool.connecting ++ [_]).length + n ≤ _
    rw [length_append, length_singleton]
    omega

theorem length_delete {m : OrderedMap Nat Purpose} {x : Purpose} (hn : (m.map fst).Nodup)
    (h : m.get conn = some x) : m.length = (m.delete conn).length + 1 :=
  (perm_cons_delete hn (get_mem h)).length_eq

theorem countP_delete {m : OrderedMap Nat Purpose} {x : Purpose} (hn : (m.map fst).Nodup) (h : m.get conn = some x) :
    m.countP counted = (m.delete conn).countP counted + if x = .warmUp then 0 else 1 := by
  rw [(perm_cons_delete hn (get_mem h)).countP_eq, countP_cons]
  by_cases hx : x = .warmUp
  · simp [hx, counted]
  · have hcounted : counted (conn, x) = true := decide_eq_true hx
    rw [if_neg hx, if_pos hcounted]

theorem not_mem_delete (m : OrderedMap Nat Purpose) : conn ∉ (m.delete conn).map fst := fun hmem => by
  obtain ⟨x, hx, heq⟩ := mem_map.1 hmem
  exact (mem_delete.1 hx).2 heq

section

variable (h : Stock opts pool none 0)
include h

theorem Stock.connected (hcalls : Calls pool) {now : Int}
    (hg : Steady opts pool (.connected conn now)) : Stock opts (pool.connected conn now) none 0 := by
  unfold MysqlPool.connected
  cases hget : pool.connecting.get conn with
  | none => exact h
  | some purpose =>
    have hmem := get_mem hget
    have hkey : conn ∈ pool.connecting.map fst := mem_map.2 ⟨_, hmem, rfl⟩
    have hnodup := (nodup_append.1 hcalls.numbers).1
    have hlength := length_delete hnodup hget
    have hnew : conn ∉ pool.connections := fun hc => h.apart conn hc hkey
    have hcount := countP_delete hnodup hget
    have hrest : ∀ {c}, c ∉ pool.connecting.map fst → c ∉ (pool.connecting.delete conn).map fst :=
      fun {c} hc hd => hc ((keys_delete_sublist _ _).subset hd)
    have hopen : pool.closed = false := by
      cases hclosed : pool.closed with
      | false => rfl
      | true =>
        rw [(h.closed hclosed).1] at hmem
        cases hmem
    have hunheld : ¬ pool.Held conn := by
      rintro ⟨l, hl, rfl⟩
      exact (h.held l hl).2.1 hkey
    -- the connection is noted as created, unless it is of a warm-up
    obtain ⟨created, hcreated⟩ : ∃ created, created =
        if purpose = .warmUp then pool.created else pool.created ++ [(conn, purpose)] := ⟨_, rfl⟩
    dsimp only
    rw [← hcreated]
    have hnoted : ∀ x ∈ created, x ∈ pool.created ∨ x = (conn, purpose) ∧ purpose ≠ .warmUp := fun x hx => by
      rw [hcreated] at hx
      split at hx
      · exact .inl hx
      · rename_i hp
        rcases mem_append.1 hx with hx | hx
        · exact .inl hx
        · exact .inr ⟨mem_singleton.1 hx, hp⟩
    have hkept : ∀ x ∈ pool.created, x ∈ created := fun x hx => by
      rw [hcreated]
      split
      · exact hx
      · exact mem_append_left _ hx
    exact { h with
      nodup := by
        refine nodup_append.2 ⟨h.nodup, nodup_singleton _, fun a ha b hb heq => hnew ?_⟩
        rw [← mem_singleton.1 hb, ← heq]
        exact ha
      below := fun c hc => by
        rcases mem_append.1 hc with hc | hc
        · exact h.below c hc
        · rw [mem_singleton.1 hc]
          exact h.connecting _ hmem
      apart := fun c hc => by
        rcases mem_append.1 hc with hc | hc
        · exact hrest (h.apart c hc)
        · rw [mem_singleton.1 hc]
          exact not_mem_delete _
      connecting := fun x hx => h.connecting x (mem_delete.1 hx).1
      created := fun x hx => by
        rcases hnoted x hx with hx | ⟨rfl, hp⟩
        · exact ⟨mem_append_left _ (h.created x hx).1, (h.created x hx).2⟩
        · exact ⟨mem_append_right _ mem_cons_self, hp⟩
      pending := by
        show pool.pendingCreations = (pool.connecting.delete conn).countP counted + created.length + pool.finishing
        have hpending := h.pending
        by_cases hp : purpose = .warmUp
        · rw [if_pos hp] at hcount hcreated
          rw [hcreated]
          omega
        · rw [if_neg hp] at hcount hcreated
          rw [hcreated, length_append, length_singleton]
          omega
      bounded := by
        have := h.bounded
        show (pool.connections ++ [conn]).length + (pool.connecting.delete conn).length + 0 ≤ _
        rw [length_append, length_singleton]
        omega
      known := fun c hc => by
        by_cases hcc : c = conn
        · rw [hcc]
          exact .inl (mem_append_right _ mem_cons_self)
        · rcases h.known c hc with hc' | hc' | hc'
          · exact .inl (mem_append_left _ hc')
          · obtain ⟨x, hx, rfl⟩ := mem_map.1 hc'
            exact .inr (.inl (mem_map.2 ⟨x, mem_delete.2 ⟨hx, hcc⟩, rfl⟩))
          · exact .inr (.inr ((if_neg hcc).trans hc'))
      held := fun l hl => by
        obtain ⟨hlt, hout, hcr⟩ := h.held l hl
        refine ⟨hlt, hrest hout, fun hmem' => ?_⟩
        obtain ⟨x, hx, hconn⟩ := mem_map.1 hmem'
        rcases hnoted x hx with hx | ⟨rfl, -⟩
        · exact hcr (mem_map.2 ⟨x, hx, hconn⟩)
        · exact hunheld ⟨l, hl, hconn.symm⟩
      inUse := fun c hc _ => by
        show (if c = conn then false else pool.inUse c) = true ↔ pool.Held c
        by_cases hcc : c = conn
        · rw [if_pos hcc, hcc]
          simp [hunheld]
        · rw [if_neg hcc]
          rcases mem_append.1 hc with hc | hc
          · exact h.inUse c hc nofun
          · exact absurd (mem_singleton.1 hc) hcc
      idle := fun c hc _ hnot => by
        show (if c = conn then ConnStatus.ready else pool.status c) ≠ .busy
        by_cases hcc : c = conn
        · rw [if_pos hcc]
          rintro ⟨⟩
        · rw [if_neg hcc]
          rcases mem_append.1 hc with hc | hc
          · exact h.idle c hc nofun hnot
          · exact absurd (mem_singleton.1 hc) hcc
      slots := fun _ hqueue => by
        obtain ⟨htotal, hall⟩ := h.slots hopen hqueue
        have hp : purpose ≠ .warmUp := fun hp => hqueue (hg (hp ▸ hget))
        constructor
        · show (pool.connections ++ [conn]).length + (pool.connecting.delete conn).length + 0 = _
          rw [length_append, length_singleton]
          omega
        · intro c hc _
          rcases mem_append.1 hc with hc | hc
          · refine (hall c hc nofun).imp_right fun hcr => ?_
            obtain ⟨x, hx, hconn⟩ := mem_map.1 hcr
            exact mem_map.2 ⟨x, hkept x hx, hconn⟩
          · refine .inr (mem_map.2 ⟨(conn, purpose), ?_, (mem_singleton.1 hc).symm⟩)
            rw [hcreated, if_neg hp]
            exact mem_append_right _ mem_cons_self
      closed := fun hclosed => Bool.noConfusion (hopen.symm.trans hclosed) }

theorem Stock.connectFailed (hcalls : Calls pool) {error : String}
    (hg : Steady opts pool (.connectFailed conn error)) : Stock opts (pool.connectFailed conn error) none 0 := by
  unfold MysqlPool.connectFailed
  cases hget : pool.connecting.get conn with
  | none => exact h
  | some purpose =>
    have hqueue := hg (by rw [hget]; rfl)
    have hmem := get_mem hget
    have hnodup := (nodup_append.1 hcalls.numbers).1
    have hlength := length_delete hnodup hget
    have hcount := countP_delete hnodup hget
    have hkey : conn ∈ pool.connecting.map fst := mem_map.2 ⟨_, hmem, rfl⟩
    have hne : ∀ c ∈ pool.connections, c ≠ conn := fun c hc heq => h.apart c hc (heq ▸ hkey)
    have hopen : pool.closed = false := by
      cases hclosed : pool.closed with
      | false => rfl
      | true =>
        rw [(h.closed hclosed).1] at hmem
        cases hmem
    have hstock : ∀ pending finishing, pending = (pool.connecting.delete conn).countP counted +
        pool.created.length + finishing → Stock opts { pool with
          connecting := pool.connecting.delete conn
          status := fun c => if c = conn then .closed else pool.status c
          pendingCreations := pending, finishing := finishing } none 0 := fun pending finishing hpending =>
      { h with
        apart := fun c hc hd => h.apart c hc ((keys_delete_sublist _ _).subset hd)
        connecting := fun x hx => h.connecting x (mem_delete.1 hx).1
        pending := hpending
        bounded := by
          have := h.bounded
          show pool.connections.length + (pool.connecting.delete conn).length + 0 ≤ _
          omega
        known := fun c hc => by
          by_cases hcc : c = conn
          · exact .inr (.inr (if_pos hcc))
          · rcases h.known c hc with hc' | hc' | hc'
            · exact .inl hc'
            · obtain ⟨x, hx, rfl⟩ := mem_map.1 hc'
              exact .inr (.inl (mem_map.2 ⟨x, mem_delete.2 ⟨hx, hcc⟩, rfl⟩))
            · exact .inr (.inr ((if_neg hcc).trans hc'))
        held := fun l hl => ⟨(h.held l hl).1, fun hd => (h.held l hl).2.1 ((keys_delete_sublist _ _).subset hd), (h.held l hl).2.2⟩
        idle := fun c hc hl hnot => by
          show (if c = conn then ConnStatus.closed else pool.status c) ≠ .busy
          rw [if_neg (hne c hc)]
          exact h.idle c hc hl hnot
        slots := fun _ hne' => absurd hqueue hne'
        closed := fun hclosed => Bool.noConfusion (hopen.symm.trans hclosed) }
    have hpending := h.pending
    cases purpose with
    | warmUp =>
      refine hstock pool.pendingCreations pool.finishing ?_
      rw [if_pos rfl] at hcount
      omega
    | acquire caller =>
      refine (hstock (pool.pendingCreations - 1) pool.finishing ?_).reject caller error
      rw [if_neg nofun] at hcount
      omega
    | replacement =>
      refine hstock pool.pendingCreations (pool.finishing + 1) ?_
      rw [if_neg nofun] at hcount
      omega

theorem Stock.finish : Stock opts pool.finish none 0 := by
  unfold MysqlPool.finish
  split
  · exact h
  · have := h.pending
    refine { h with pending := ?_ }
    show pool.pendingCreations - 1 = pool.connecting.countP counted + pool.created.length + (pool.finishing - 1)
    omega

theorem Stock.creatorGoesOn (hcalls : Calls pool) (conn : Nat) : Stock opts (pool.creatorGoesOn conn) none 0 := by
  unfold MysqlPool.creatorGoesOn
  cases hget : pool.created.get conn with
  | none => exact h
  | some purpose =>
    have hmem := get_mem hget
    obtain ⟨hin, hp⟩ := h.created _ hmem
    have hkey : conn ∈ pool.created.map fst := mem_map.2 ⟨_, hmem, rfl⟩
    have hlength := length_delete (nodup_append.1 hcalls.numbers).2.1 hget
    have hfree : ¬ pool.Held conn := by
      rintro ⟨l, hl, rfl⟩
      exact (h.held l hl).2.2 hkey
    have hopen : pool.closed = false := by
      cases hclosed : pool.closed with
      | false => rfl
      | true =>
        rw [(h.closed hclosed).2.1] at hmem
        cases hmem
    have huse : pool.inUse conn = false := by
      cases huse : pool.inUse conn with
      | false => rfl
      | true => exact absurd ((h.inUse conn hin nofun).1 huse) hfree
    have hstock : ∀ pending finishing,
        pending = pool.connecting.countP counted + (pool.created.delete conn).length + finishing → Stock opts { pool with
            created := pool.created.delete conn
            pendingCreations := pending, finishing := finishing } (some conn) 0 := fun pending finishing hpending =>
      { h.loosen conn with
        created := fun x hx => h.created x (mem_delete.1 hx).1
        pending := hpending
        held := fun l hl => ⟨(h.held l hl).1, (h.held l hl).2.1, fun hd =>
          (h.held l hl).2.2 ((keys_delete_sublist _ _).subset hd)⟩
        slots := fun _ hqueue => by
          obtain ⟨htotal, hall⟩ := h.slots hopen hqueue
          refine ⟨htotal, fun c hc hne => (hall c hc nofun).imp_right fun hcr => ?_⟩
          obtain ⟨x, hx, rfl⟩ := mem_map.1 hcr
          exact mem_map.2 ⟨x, mem_delete.2 ⟨hx, fun heq => hne (congrArg some heq)⟩, rfl⟩
        closed := fun hclosed => Bool.noConfusion (hopen.symm.trans hclosed) }
    have hpending := h.pending
    cases purpose with
    | warmUp => exact absurd rfl hp
    | acquire caller =>
      exact (hstock (pool.pendingCreations - 1) pool.finishing (by omega)).hand hin hfree (not_mem_delete _) hopen caller
    | replacement =>
      exact (hstock pool.pendingCreations (pool.finishing + 1) (by omega)).serveWaiter hin hfree (not_mem_delete _) hopen
        huse (h.idle conn hin nofun hfree)

end

theorem held_iff {c : Nat} : pool.Held c ↔ c ∈ pool.lent.map Lent.conn := mem_map.symm

theorem reuse_conns (l : Lent) (use : Use) : (pool.reuse l use).lent.map Lent.conn = pool.lent.map Lent.conn := by
  show (pool.lent.map _).map Lent.conn = _
  rw [map_map]
  refine map_congr_left fun x _ => ?_
  show (if x = l then { l with use } else x).conn = x.conn
  split
  · rename_i heq
    rw [heq]
  · rfl

theorem Stock.reuse (h : Stock opts pool none 0) {l : Lent} (hl : l ∈ pool.lent) {use : Use} (huse : use ≠ .abandoned) :
    Stock opts (pool.reuse l use) none 0 := by
  have hheld : ∀ c, (pool.reuse l use).Held c ↔ pool.Held c := fun c => by rw [held_iff, held_iff, reuse_conns]
  have hmem : ∀ x ∈ (pool.reuse l use).lent, x ∈ pool.lent ∨ x = { l with use } := fun x hx => by
    obtain ⟨y, hy, rfl⟩ := mem_map.1 hx
    split
    · exact .inr rfl
    · exact .inl hy
  exact { h with
    exclusive := by
      rw [reuse_conns]
      exact h.exclusive
    held := fun x hx => by
      rcases hmem x hx with hx | rfl
      · exact h.held x hx
      · exact h.held l hl
    inUse := fun c hc hne => by
      rw [hheld]
      exact h.inUse c hc hne
    idle := fun c hc hne hnot => h.idle c hc hne fun hh => hnot ((hheld c).2 hh)
    slots := fun hopen hqueue => by
      obtain ⟨htotal, hall⟩ := h.slots hopen hqueue
      exact ⟨htotal, fun c hc hne => (hall c hc hne).imp_left (hheld c).2⟩
    abandoned := fun x hx => by
      rcases hmem x hx with hx | rfl
      · exact h.abandoned x hx
      · exact huse }

theorem Stock.tighten (h : Stock opts pool (some conn) 0) (hnot : conn ∉ pool.connections) : Stock opts pool none 0 := by
  have hne : ∀ c ∈ pool.connections, some c ≠ some conn := fun c hc heq => hnot (some.inj heq ▸ hc)
  exact { h with
    inUse := fun c hc _ => h.inUse c hc (hne c hc)
    idle := fun c hc _ => h.idle c hc (hne c hc)
    slots := fun hopen hqueue =>
      ⟨(h.slots hopen hqueue).1, fun c hc _ => (h.slots hopen hqueue).2 c hc (hne c hc)⟩ }

/-- A borrower lets its connection go. -/
theorem Stock.dropped (h : Stock opts pool none 0) {l : Lent} (hl : l ∈ pool.lent) :
    Stock opts { pool with lent := pool.lent.erase l, releases := pool.releases ++ [l.caller] } (some l.conn) 0 ∧
      l.conn ∉ (pool.lent.erase l).map Lent.conn := by
  have hperm := (perm_cons_erase hl).map Lent.conn
  have hnodup := nodup_cons.1 (hperm.nodup_iff.1 h.exclusive)
  have hheld : ∀ c, c ≠ l.conn → ((∃ x ∈ pool.lent.erase l, x.conn = c) ↔ pool.Held c) := fun c hc => by
    rw [held_iff, hperm.mem_iff, map_cons, mem_cons]
    simp [hc]
  have hne : ∀ {c : Nat}, some c ≠ some l.conn → c ≠ l.conn := fun {c} hsome heq => hsome (congrArg some heq)
  refine ⟨{ h with
    exclusive := hnodup.2
    held := fun x hx => h.held x (mem_of_mem_erase hx)
    inUse := fun c hc hsome => (h.inUse c hc nofun).trans (hheld c (hne hsome)).symm
    idle := fun c hc hsome hnot => h.idle c hc nofun fun hh => hnot ((hheld c (hne hsome)).2 hh)
    slots := fun hopen hqueue => ?_
    abandoned := fun x hx => h.abandoned x (mem_of_mem_erase hx) }, hnodup.1⟩
  obtain ⟨htotal, hall⟩ := h.slots hopen hqueue
  exact ⟨htotal, fun c hc hsome => (hall c hc nofun).imp_left (hheld c (hne hsome)).2⟩

theorem Stock.maybeCreateReplacement (h : Stock opts pool none 1)
    (hroom : pool.closed = false → pool.waitQueue ≠ [] → pool.hasRoom opts = true) :
    Stock opts (pool.maybeCreateReplacement opts) none 0 := by
  unfold MysqlPool.maybeCreateReplacement
  split
  · rename_i hclosed
    refine h.closeRoom fun hopen => ?_
    rw [hclosed] at hopen
    cases hopen
  · rename_i hopen
    have hopen : pool.closed = false := by simpa using hopen
    split
    · exact h.create hopen nofun
    · rename_i hfull
      refine h.closeRoom fun _ => ?_
      by_contra hqueue
      exact hfull (hroom hopen hqueue)

theorem Stock.release (h : Stock opts pool none 0) {l : Lent} (hl : l ∈ pool.lent) (now : Int) (hstatus : pool.status l.conn ≠ .busy)
    (hg : pool.status l.conn = .closed → pool.waitQueue ≠ [] → pool.created = [] ∧ pool.finishing = 0) :
    Stock opts (pool.release opts l now) none 0 := by
  obtain ⟨hdropped, hfree⟩ := h.dropped hl
  have hcreated := (h.held l hl).2.2
  show Stock opts (MysqlPool.giveBack { pool with lent := pool.lent.erase l, releases := pool.releases ++ [l.caller] } opts l.conn now) none 0
  unfold MysqlPool.giveBack
  split
  · rename_i hin
    split
    · -- a dead connection is replaced
      rename_i hdead
      refine (hdropped.removeConnection hin hdead hcreated).maybeCreateReplacement fun _ hqueue => decide_eq_true ?_
      obtain ⟨hnone, hfinishing⟩ := hg hdead hqueue
      have hpending := pending_le h hnone hfinishing
      have hlength := length_erase_of_mem (show l.conn ∈ pool.connections from hin)
      have hpos := length_pos_of_mem (show l.conn ∈ pool.connections from hin)
      have hbound := h.bounded
      show (pool.connections.erase l.conn).length + pool.pendingCreations < opts.maxConnections
      omega
    · rename_i hlive
      split
      · rename_i hready
        have hopen : pool.closed = false := by
          cases hclosed : pool.closed with
          | false => rfl
          | true => exact absurd ((h.closed hclosed).2.2 _ (h.held l hl).1) hlive
        have hfreed : Stock opts (MysqlPool.freed { pool with
            lent := pool.lent.erase l, releases := pool.releases ++ [l.caller] } l.conn now) (some l.conn) 0 :=
          { hdropped with
            inUse := fun c hc hsome => by
              show (if c = l.conn then false else pool.inUse c) = true ↔ _
              rw [if_neg fun heq => hsome (congrArg some heq)]
              exact hdropped.inUse c hc hsome }
        exact hfreed.serveWaiter hin (fun hh => hfree (held_iff.1 hh)) hcreated hopen (if_pos rfl) hstatus
      · rename_i hbusy
        cases hst : pool.status l.conn with
        | ready => exact absurd hst hbusy
        | busy => exact absurd hst hstatus
        | closed => exact absurd hst hlive
  · rename_i hout
    exact hdropped.tighten hout

theorem Stock.goOn (h : Stock opts pool none 0) {caller : Nat} {succeeds : Bool} {now : Int}
    (hg : Steady opts pool (.goOn caller succeeds now)) : Stock opts (pool.goOn opts caller succeeds now) none 0 := by
  unfold MysqlPool.goOn
  cases hfind : pool.lent.find? (·.caller = caller) with
  | none => exact h
  | some l =>
    have hl := mem_of_find?_eq_some hfind
    obtain ⟨hopening, hends⟩ := hg l hfind
    have hrelease : l.use.ends succeeds = true → Stock opts (pool.release opts l now) none 0 := fun huse =>
      h.release hl now (hends huse).1 (hends huse).2
    dsimp only
    cases huse : l.use with
    | caller => exact hrelease (by rw [huse]; rfl)
    | query => exact hrelease (by rw [huse]; rfl)
    | opening =>
      refine h.reuse hl ?_
      rw [if_pos (hopening huse)]
      rintro ⟨⟩
    | streaming => exact hrelease (by rw [huse]; rfl)
    | starting => exact h.reuse hl (by cases succeeds <;> rintro ⟨⟩)
    | working => exact h.reuse hl (by cases succeeds <;> rintro ⟨⟩)
    | committing =>
      cases succeeds with
      | true => exact hrelease (by rw [huse]; rfl)
      | false => exact h.reuse hl nofun
    | rollingBack => exact hrelease (by rw [huse]; rfl)
    | abandoned => exact h

theorem mem_expired {now : Int} {c : Nat} : ∀ {cs toRemove : List Nat}, c ∈ pool.expired opts now cs toRemove →
    c ∈ toRemove ∨ c ∈ cs ∧ pool.inUse c = false
  | [], _, h => .inl h
  | d :: cs, toRemove, h => by
    unfold MysqlPool.expired at h
    split at h
    · rename_i hidle
      rcases mem_expired h with h | ⟨h, huse⟩
      · rcases mem_append.1 h with h | h
        · exact .inl h
        · rw [mem_singleton.1 h]
          exact .inr ⟨mem_cons_self, by simpa using hidle.1⟩
      · exact .inr ⟨mem_cons_of_mem _ h, huse⟩
    · rcases mem_expired h with h | ⟨h, huse⟩
      · exact .inl h
      · exact .inr ⟨mem_cons_of_mem _ h, huse⟩

section

variable (h : Stock opts pool none 0)
include h

theorem Stock.sweepIdle {now : Int} (hg : Steady opts pool (.sweepIdle now)) : Stock opts (pool.sweepIdle opts now) none 0 := by
  have hcreated : pool.created = [] := hg
  have hfree : ∀ c ∈ pool.expired opts now pool.connections [], ¬ pool.Held c := fun c hc hheld => by
    rcases mem_expired hc with hc | ⟨hc, huse⟩
    · cases hc
    · rw [(h.inUse c hc nofun).2 hheld] at huse
      cases huse
  have hrest : ∀ c ∈ pool.connections.filter (· ∉ pool.expired opts now pool.connections []), c ∈ pool.connections :=
    fun c hc => (mem_filter.1 hc).1
  exact { h with
    nodup := h.nodup.sublist filter_sublist
    below := fun c hc => h.below c (hrest c hc)
    apart := fun c hc => h.apart c (hrest c hc)
    created := fun x hx => by
      have hx : x ∈ pool.created := hx
      rw [hcreated] at hx
      cases hx
    bounded := by
      have hle := length_filter_le (fun c => decide (c ∉ pool.expired opts now pool.connections [])) pool.connections
      have := h.bounded
      show (pool.connections.filter _).length + pool.connecting.length + 0 ≤ _
      omega
    known := fun c hc => by
      by_cases hremoved : c ∈ pool.expired opts now pool.connections []
      · exact .inr (.inr (if_pos hremoved))
      · rcases h.known c hc with hc' | hc' | hc'
        · exact .inl (mem_filter.2 ⟨hc', decide_eq_true hremoved⟩)
        · exact .inr (.inl hc')
        · exact .inr (.inr ((if_neg hremoved).trans hc'))
    inUse := fun c hc hne => h.inUse c (hrest c hc) hne
    idle := fun c hc hne hnot => by
      show (if c ∈ pool.expired opts now pool.connections [] then ConnStatus.closed else pool.status c) ≠ .busy
      rw [if_neg (of_decide_eq_true (mem_filter.1 hc).2)]
      exact h.idle c (hrest c hc) hne hnot
    slots := fun hopen hqueue => by
      obtain ⟨htotal, hall⟩ := h.slots hopen hqueue
      -- while a caller waits every connection is lent, so that none is removed
      have hsame : pool.connections.filter (· ∉ pool.expired opts now pool.connections []) = pool.connections := by
        refine filter_eq_self.2 fun c hc => decide_eq_true fun hremoved => hfree c hremoved ?_
        refine (hall c hc nofun).resolve_right fun hcr => ?_
        rw [hcreated] at hcr
        cases hcr
      refine ⟨?_, fun c hc hne => hall c (hrest c hc) hne⟩
      show (pool.connections.filter _).length + pool.connecting.length + 0 = _
      rw [hsame]
      exact htotal
    swept := by
      show pool.sweptLent ++ (pool.expired opts now pool.connections []).filter _ = []
      rw [h.swept, nil_append, filter_eq_nil_iff]
      intro c hc hlent
      obtain ⟨l, hl, hconn⟩ := any_eq_true.1 hlent
      exact hfree c hc ⟨l, hl, of_decide_eq_true hconn⟩
    closed := fun hclosed => by
      obtain ⟨hconnecting, hcr, hstatus⟩ := h.closed hclosed
      refine ⟨hconnecting, hcr, fun c hc => ?_⟩
      show (if c ∈ pool.expired opts now pool.connections [] then ConnStatus.closed else pool.status c) = .closed
      split
      · rfl
      · exact hstatus c hc }

theorem Stock.acquireTimeout (caller : Nat) : Stock opts (pool.acquireTimeout caller) none 0 := by
  unfold MysqlPool.acquireTimeout
  split
  · have hleft : Stock opts { pool with waitQueue := pool.waitQueue.erase caller } none 0 :=
      { h with
        slots := fun hopen hqueue => h.slots hopen fun hnil => hqueue (by
          rw [hnil]
          rfl) }
    exact hleft.reject _ _
  · exact h

theorem Stock.setStatus {st : ConnStatus} (hg : Steady opts pool (.setStatus conn st)) : Stock opts (pool.setStatus conn st) none 0 := by
  unfold MysqlPool.setStatus
  split
  · exact h
  · rename_i hlive
    refine { h with known := fun c hc => ?_, idle := fun c hc hne hnot => ?_, closed := fun hclosed => ?_ }
    · by_cases hcc : c = conn
      · subst hcc
        rcases h.known c hc with hc' | hc' | hc'
        · exact .inl hc'
        · exact .inr (.inl hc')
        · exact absurd hc' hlive
      · rcases h.known c hc with hc' | hc' | hc'
        · exact .inl hc'
        · exact .inr (.inl hc')
        · exact .inr (.inr ((if_neg hcc).trans hc'))
    · show (if c = conn then st else pool.status c) ≠ .busy
      by_cases hcc : c = conn
      · rw [if_pos hcc]
        exact fun hbusy => hnot (hcc ▸ hg hbusy)
      · rw [if_neg hcc]
        exact h.idle c hc hne hnot
    · obtain ⟨hconnecting, hcr, hstatus⟩ := h.closed hclosed
      refine ⟨hconnecting, hcr, fun c hc => ?_⟩
      have hcc : c ≠ conn := fun heq => hlive (heq ▸ hstatus c hc)
      exact (if_neg hcc).trans (hstatus c hc)

theorem Stock.close (hg : Steady opts pool .close) : Stock opts pool.close none 0 := by
  obtain ⟨hconnecting, hcreated⟩ := hg
  have hstatus : ∀ c < pool.nextConnection, (if c ∈ pool.connections then ConnStatus.closed else pool.status c) = .closed := fun c hc => by
    split
    · rfl
    · rename_i hout
      rcases h.known c hc with hc' | hc' | hc'
      · exact absurd hc' hout
      · rw [hconnecting] at hc'
        cases hc'
      · exact hc'
  exact { h with
    known := fun c hc => .inr (.inr (hstatus c hc))
    idle := fun c hc _ _ => by
      show (if c ∈ pool.connections then ConnStatus.closed else pool.status c) ≠ .busy
      rw [hstatus c (h.below c hc)]
      rintro ⟨⟩
    slots := fun hopen => by cases hopen
    closed := fun _ => ⟨hconnecting, hcreated, hstatus⟩
    afterClose := fun x hx hclosed => by
      rcases mem_append.1 hx with hx | hx
      · exact h.afterClose x hx hclosed
      · obtain ⟨caller, -, rfl⟩ := mem_map.1 hx
        exact ⟨_, rfl⟩ }

theorem Stock.closeDone : Stock opts pool.closeDone none 0 := by
  unfold MysqlPool.closeDone
  split
  · rename_i hclosed
    obtain ⟨-, hcreated, hstatus⟩ := h.closed hclosed
    have hbound := h.bounded
    refine { h with
      nodup := nodup_nil
      below := fun c hc => (by cases hc)
      apart := fun c hc => (by cases hc)
      created := fun x hx => ?_
      bounded := ?_
      known := fun c hc => .inr (.inr (hstatus c hc))
      inUse := fun c hc => (by cases hc)
      idle := fun c hc => (by cases hc)
      slots := fun hopen => ?_ }
    · have hx : x ∈ pool.created := hx
      rw [hcreated] at hx
      cases hx
    · show 0 + pool.connecting.length + 0 ≤ opts.maxConnections
      omega
    · have hopen : pool.closed = false := hopen
      rw [hclosed] at hopen
      cases hopen
  · exact h

theorem Stock.step (hcalls : Calls pool) {ev : PoolEvent} (hg : Steady opts pool ev) : Stock opts (pool.step opts ev) none 0 := by
  cases ev with
  | warmUp => exact h.createMany _ hg.1 hg.2
  | acquire kind now => exact h.acquire hg
  | connected conn now => exact h.connected hcalls hg
  | connectFailed conn error => exact h.connectFailed hcalls hg
  | creatorGoesOn conn => exact h.creatorGoesOn hcalls conn
  | finish => exact h.finish
  | goOn caller succeeds now => exact h.goOn hg
  | sweepIdle now => exact h.sweepIdle hg
  | acquireTimeout caller => exact h.acquireTimeout caller
  | setStatus conn st => exact h.setStatus hg
  | close => exact h.close hg
  | closeDone => exact h.closeDone

theorem Stock.safe (hcalls : Calls pool) : PoolSafe opts pool where
  exclusive := h.exclusive
  swept := h.swept
  bounded := h.bounded
  settled := hcalls.settled
  queue := hcalls.queue
  slots := fun hopen hqueue =>
    ⟨(h.slots hopen hqueue).1, fun c hc => (h.slots hopen hqueue).2 c hc nofun⟩
  released := hcalls.released
  abandoned := h.abandoned
  closed := fun hclosed => ⟨(h.closed hclosed).1, (h.closed hclosed).2.2⟩
  afterClose := h.afterClose

end

end

def oneConnection : PoolOptions := { minConnections := 1, maxConnections := 1 }

end StreetJS.Mysql
