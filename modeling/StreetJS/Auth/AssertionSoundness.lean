/-
What an accepted assertion proves, over every interleaving of ceremonies: where no two calls hold one challenge, what
the stored keys sign is for the relying party with a growing counter, and a credential id stays with its user.
-/
import Mathlib.Data.List.Nodup
import StreetJS.Auth.WebAuthn

namespace StreetJS.Auth

open StreetJS.Lib List
open Option (some.inj)

/-! ## Authenticator data -/

/-- The counter, from byte 33. -/
def counterOf (authData : Bytes) : Nat := BigEndian.decode ((authData.drop 33).take 4)

def userPresent (authData : Bytes) : Prop := (authData.getD 32 0) &&& 1 ≠ 0

/-- The counter is behind the stored one, or the authenticator has none. -/
def CounterOk (authData : Bytes) (stored : Nat) : Prop :=
  37 ≤ authData.length ∧ (stored < counterOf authData ∨ counterOf authData = 0 ∧ stored = 0)

theorem signCountOf_eq {authData : Bytes} (h : 41 ≤ authData.length) : signCountOf authData = counterOf authData := by
  rw [signCountOf, if_pos h, counterOf]

/-- The challenge that a call holds. -/
def CeremonyPhase.held : CeremonyPhase → Option HeldChallenge
  | .inserting held _ _ | .selecting held | .updating held _ _ _ | .clearing held _ => some held
  | .reading | .expiring | .resolved | .rejected _ => none

namespace WebAuthnWorld

variable (p : Primitives) (config : WebAuthnConfig)

/-! ## Soundness -/

/-- The challenge of a call: it was the last one of the user and had not expired when the call read it, and it is the one of
the client data. -/
structure ChallengeOk (w : WebAuthnWorld) (userId : String) (request : CeremonyRequest) (held : HeldChallenge) : Prop where
  issued : ∃ issued clientData, w.issued[held.issue]? = some issued ∧ issued.userId = userId ∧ held.now ≤ issued.expiresAt ∧
    p.parseClientData (Base64.decode request.clientDataJSON) = some clientData ∧ clientData.challenge = some issued.challenge
  seen : held.issue < held.seen ∧ held.seen ≤ w.issued.length
  last : ∀ n, held.issue < n → n < held.seen → ∀ later, w.issued[n]? = some later → later.userId ≠ userId

/-- An assertion against the row that was read: the row is the one of the user's credential, the key of the row verifies the
signature, and the data is for the relying party. -/
structure AssertionOk (w : WebAuthnWorld) (userId : String) (a : AuthenticationResponse) (id : Nat) (row : CredentialRow) : Prop where
  stored : ∃ stored, w.rows[id]? = some stored ∧ stored.userId = userId ∧ stored.credentialId = a.id ∧ stored.publicKey = row.publicKey
  signature : p.verifies row.publicKey (a.authData ++ p.sha256 (Base64.decode a.clientDataJSON)) (Base64.decode a.signature) = true
  rpIdHash : a.authData.take 32 = p.sha256 config.rpId
  userPresent : userPresent a.authData
  counter : CounterOk a.authData row.signCount

/-- What holds of every accepted assertion, and of every row that a registration has changed. -/
structure Sound (w : WebAuthnWorld) : Prop where
  challenge : ∀ x ∈ w.accepted, w.ChallengeOk p x.userId x.request x.held
  once : (w.accepted.map fun x => x.held.issue).Nodup
  assertion : ∀ x ∈ w.accepted, ∀ a, x.request = .authentication a →
    ∃ id row, x.read = some (id, row) ∧ w.AssertionOk p config x.userId a id row
  own : ∀ c ∈ w.overwritten, c.2.userId = c.1

/-! ## When it holds -/

/-- Data for the relying party, with the flag of the user and a counter that the code compares or that is behind the stored
one. -/
def Genuine (authData : Bytes) (stored : Nat) : Prop :=
  authData.take 32 = p.sha256 config.rpId ∧ userPresent authData ∧ 37 ≤ authData.length ∧
    (41 ≤ authData.length ∧ counterOf authData ≠ 0 ∨ stored < counterOf authData ∨ counterOf authData = 0 ∧ stored = 0)

/-- A call reads a challenge that no other call holds, what a stored key signs is genuine, and a credential is registered by
the user who has it already. -/
def Trusted (w : WebAuthnWorld) : WebAuthnEvent → Prop
  | .read i now => ∀ c, w.ceremonies[i]? = some c → c.phase matches .reading → ∀ held, (w.readChallenge p config c now).held = some held →
        ∀ (j : Nat) d other, w.ceremonies[j]? = some d → d.phase.held = some other → other.issue ≠ held.issue
  | .select i => ∀ c held a, w.ceremonies[i]? = some c → c.phase = .selecting held → c.request = .authentication a →
      ∀ id row, (w.findRow fun row => row.credentialId == a.id && row.userId == c.userId) = some (id, row) →
        a.signedBy p row.publicKey = true → Genuine p config a.authData row.signCount
  | .insert i => ∀ c held publicKey signCount credential, w.ceremonies[i]? = some c →
      c.phase = .inserting held publicKey signCount → c.request = .registration credential →
      ∀ id row, (w.findRow fun row => row.credentialId == credential.id) = some (id, row) → row.userId = c.userId
  | _ => True

variable {p config} {w w' : WebAuthnWorld}

/-! ## What stays -/

/-- Challenges are issued behind the others, and a row keeps its user, its credential and its key. -/
structure Grows (w w' : WebAuthnWorld) : Prop where
  issued : w.issued <+: w'.issued
  rows : ∀ (id : Nat) row, w.rows[id]? = some row → ∃ row', w'.rows[id]? = some row' ∧ row'.userId = row.userId ∧
    row'.credentialId = row.credentialId ∧ row'.publicKey = row.publicKey

theorem Grows.of_eq (hissued : w'.issued = w.issued) (hrows : w'.rows = w.rows) : w.Grows w' where
  issued := hissued ▸ prefix_refl _
  rows id row hrow := ⟨row, by rw [hrows, hrow], rfl, rfl, rfl⟩

theorem ChallengeOk.grows {userId : String} {request : CeremonyRequest} {held : HeldChallenge}
    (h : w.ChallengeOk p userId request held) (hg : w.Grows w') : w'.ChallengeOk p userId request held := by
  obtain ⟨more, hmore⟩ := hg.issued
  obtain ⟨⟨issued, clientData, hissued, huser, hnow, hdata, hchallenge⟩, ⟨hlt, hle⟩, hlast⟩ := h
  have hold : ∀ n, n < held.seen → w'.issued[n]? = w.issued[n]? := fun n hn => by
    rw [← hmore, getElem?_append_left (by omega)]
  refine ⟨⟨issued, clientData, by rw [hold _ hlt, hissued], huser, hnow, hdata, hchallenge⟩, ⟨hlt, ?_⟩, fun n hn hseen later hl => ?_⟩
  · rw [← hmore, length_append]
    omega
  · rw [hold n hseen] at hl
    exact hlast n hn hseen later hl

theorem AssertionOk.grows {userId : String} {a : AuthenticationResponse} {id : Nat} {row : CredentialRow}
    (h : w.AssertionOk p config userId a id row) (hg : w.Grows w') : w'.AssertionOk p config userId a id row := by
  obtain ⟨⟨stored, hstored, huser, hcredential, hkey⟩, hsignature, hhash, hpresent, hcounter⟩ := h
  obtain ⟨stored', hstored', huser', hcredential', hkey'⟩ := hg.rows id stored hstored
  exact ⟨⟨stored', hstored', huser'.trans huser, hcredential'.trans hcredential, hkey'.trans hkey⟩, hsignature, hhash, hpresent, hcounter⟩

theorem findRow_spec {test : CredentialRow → Bool} {id : Nat} {row : CredentialRow} (h : w.findRow test = some (id, row)) :
    w.rows[id]? = some row ∧ test row = true := by
  obtain ⟨j, hj, hrow⟩ := Option.bind_eq_some_iff.1 h
  obtain ⟨row', hrow', heq⟩ := Option.map_eq_some_iff.1 hrow
  obtain ⟨rfl, rfl⟩ := Prod.mk.inj heq
  obtain ⟨hlt, htest, -⟩ := findIdx?_eq_some_iff_getElem.1 hj
  rw [getElem?_eq_getElem hlt] at hrow'
  obtain rfl := some.inj hrow'
  exact ⟨getElem?_eq_getElem hlt, htest⟩

theorem grows_set {id : Nat} {row row' : CredentialRow} (hrow : w.rows[id]? = some row) (huser : row'.userId = row.userId)
    (hcredential : row'.credentialId = row.credentialId) (hkey : row'.publicKey = row.publicKey)
    (hissued : w'.issued = w.issued) (hrows : w'.rows = w.rows.set id row') : w.Grows w' where
  issued := hissued ▸ prefix_refl _
  rows j other hother := by
    rw [hrows]
    by_cases hj : id = j
    · subst hj
      obtain rfl := some.inj (hrow.symm.trans hother)
      exact ⟨row', getElem?_set_self (lt_length hrow), huser, hcredential, hkey⟩
    · exact ⟨other, by rw [getElem?_set_ne hj, hother], rfl, rfl, rfl⟩

/-! ## The invariant -/

/-- What a call has read fits its request. -/
def CallOk (p : Primitives) (config : WebAuthnConfig) (w : WebAuthnWorld) (userId : String) (request : CeremonyRequest) : CeremonyPhase → Prop
  | .updating _ id row _ | .clearing _ (some (id, row)) =>
    ∃ a, request = .authentication a ∧ w.AssertionOk p config userId a id row
  | .clearing _ none | .inserting _ _ _ => ∃ credential, request = .registration credential
  | _ => True

theorem CallOk.grows {userId : String} {request : CeremonyRequest} {phase : CeremonyPhase}
    (h : w.CallOk p config userId request phase) (hg : w.Grows w') : w'.CallOk p config userId request phase := by
  match phase, h with
  | .updating _ _ _ _, ⟨a, hrequest, ha⟩ => exact ⟨a, hrequest, ha.grows hg⟩
  | .clearing _ (some _), ⟨a, hrequest, ha⟩ => exact ⟨a, hrequest, ha.grows hg⟩
  | .clearing _ none, h => exact h
  | .inserting _ _ _, h => exact h
  | .reading, _ | .expiring, _ | .selecting _, _ | .resolved, _ | .rejected _, _ => trivial

/-- A challenge that a call holds: nobody has consumed it. -/
def Unconsumed (w : WebAuthnWorld) (issue : Nat) : Prop := ∀ x ∈ w.accepted, x.held.issue ≠ issue

structure Inv (p : Primitives) (config : WebAuthnConfig) (w : WebAuthnWorld) : Prop where
  session : ∀ userId n, w.session.get userId = some n → (∃ issued, w.issued[n]? = some issued ∧ issued.userId = userId) ∧
    (∀ (m : Nat) later, n < m → w.issued[m]? = some later → later.userId ≠ userId) ∧ w.Unconsumed n
  held : ∀ (i : Nat) c held, w.ceremonies[i]? = some c → c.phase.held = some held →
    w.ChallengeOk p c.userId c.request held ∧ w.Unconsumed held.issue
  apart : ∀ (i j : Nat) c d held other, w.ceremonies[i]? = some c → w.ceremonies[j]? = some d → c.phase.held = some held →
    d.phase.held = some other → i ≠ j → other.issue ≠ held.issue
  calls : ∀ (i : Nat) c, w.ceremonies[i]? = some c → w.CallOk p config c.userId c.request c.phase
  sound : w.Sound p config

theorem Sound.grows (h : w.Sound p config) (hg : w.Grows w') (haccepted : w'.accepted = w.accepted)
    (hown : ∀ c ∈ w'.overwritten, c.2.userId = c.1) : w'.Sound p config where
  challenge x hx := (h.challenge x (haccepted ▸ hx)).grows hg
  once := by rw [haccepted]; exact h.once
  assertion x hx a ha := by
    obtain ⟨id, row, hread, hok⟩ := h.assertion x (haccepted ▸ hx) a ha
    exact ⟨id, row, hread, hok.grows hg⟩
  own := hown

theorem Inv.proceed (h : w.Inv p config) {i : Nat} {c : Ceremony} {phase : CeremonyPhase} (hc : w.ceremonies[i]? = some c)
    (hg : w.Grows w') (hceremonies : w'.ceremonies = w.ceremonies.set i { c with phase }) (hissued : w'.issued = w.issued)
    (hsession : ∀ userId n, w'.session.get userId = some n → w.session.get userId = some n)
    (haccepted : w'.accepted = w.accepted) (hown : ∀ c ∈ w'.overwritten, c.2.userId = c.1)
    (hheld : ∀ held, phase.held = some held → w.ChallengeOk p c.userId c.request held ∧ w.Unconsumed held.issue ∧
      ∀ (j : Nat) d other, w.ceremonies[j]? = some d → d.phase.held = some other → j ≠ i → other.issue ≠ held.issue)
    (hcall : w'.CallOk p config c.userId c.request phase) : w'.Inv p config := by
  have hunconsumed : ∀ n, w.Unconsumed n → w'.Unconsumed n := fun n hn x hx => hn x (haccepted ▸ hx)
  refine ⟨fun userId n hn => ?_, fun j d held hj hd => ?_, fun j k d e held other hj hk hd he hne => ?_, fun j d hj => ?_,
    h.sound.grows hg haccepted hown⟩
  · obtain ⟨hmine, hlast, hfree⟩ := h.session userId n (hsession userId n hn)
    rw [hissued]
    exact ⟨hmine, hlast, hunconsumed n hfree⟩
  · rw [hceremonies] at hj
    rcases getElem?_set_cases hj with ⟨rfl, rfl⟩ | ⟨-, hj⟩
    · obtain ⟨hok, hfree, -⟩ := hheld held hd
      exact ⟨hok.grows hg, hunconsumed _ hfree⟩
    · obtain ⟨hok, hfree⟩ := h.held j d held hj hd
      exact ⟨hok.grows hg, hunconsumed _ hfree⟩
  · rw [hceremonies] at hj hk
    rcases getElem?_set_cases hj with ⟨rfl, rfl⟩ | ⟨hji, hj'⟩
    · rcases getElem?_set_cases hk with ⟨rfl, rfl⟩ | ⟨hki, hk'⟩
      · exact absurd rfl hne
      · exact (hheld held hd).2.2 k e other hk' he hki
    · rcases getElem?_set_cases hk with ⟨rfl, rfl⟩ | ⟨hki, hk'⟩
      · exact ((hheld other he).2.2 j d held hj' hd hji).symm
      · exact h.apart j k d e held other hj' hk' hd he hne
  · rw [hceremonies] at hj
    rcases getElem?_set_cases hj with ⟨rfl, rfl⟩ | ⟨-, hj⟩
    · exact hcall
    · exact (h.calls j d hj).grows hg

theorem Inv.holds (h : w.Inv p config) {i : Nat} {c : Ceremony} (hc : w.ceremonies[i]? = some c) {held : HeldChallenge}
    (hheld : c.phase.held = some held) : w.ChallengeOk p c.userId c.request held ∧ w.Unconsumed held.issue ∧
      ∀ (j : Nat) d other, w.ceremonies[j]? = some d → d.phase.held = some other → j ≠ i → other.issue ≠ held.issue := by
  obtain ⟨hok, hfree⟩ := h.held i c held hc hheld
  exact ⟨hok, hfree, fun j d other hj hd hne => h.apart i j c d held other hc hj hheld hd fun heq => hne heq.symm⟩

/-! ## Steps -/

theorem clientDataError_none {issued : IssuedChallenge} {request : CeremonyRequest} (h : clientDataError p config issued request = none) :
    ∃ clientData, p.parseClientData (Base64.decode request.clientDataJSON) = some clientData ∧
      clientData.challenge = some issued.challenge := by
  rw [clientDataError] at h
  split at h
  · cases h
  · next clientData hdata =>
    refine ⟨clientData, hdata, ?_⟩
    by_contra hne
    split at h <;> cases h

theorem readChallenge_held {c : Ceremony} {now : Int} {held : HeldChallenge} (h : (w.readChallenge p config c now).held = some held) :
    ∃ issued, w.session.get c.userId = some held.issue ∧ w.issued[held.issue]? = some issued ∧ held.seen = w.issued.length ∧
      held.now = now ∧ now ≤ issued.expiresAt ∧ clientDataError p config issued c.request = none := by
  have hadmitted : ∀ {held' : HeldChallenge}, (admitted held' c.request).held = some held → held' = held := by
    intro held' hh
    cases hrequest : c.request with
    | registration credential =>
      rw [hrequest, admitted] at hh
      split at hh
      · cases hh
      · exact some.inj hh
    | authentication a =>
      rw [hrequest] at hh
      exact some.inj hh
  rw [readChallenge] at h
  split at h
  · cases h
  · next n issued hget =>
    obtain ⟨m, hm, hissued⟩ := Option.bind_eq_some_iff.1 hget
    obtain ⟨issued', hissued', heq⟩ := Option.map_eq_some_iff.1 hissued
    obtain ⟨rfl, rfl⟩ := Prod.mk.inj heq
    split at h
    · cases h
    · next hnow =>
      split at h
      · cases h
      · next hdata =>
        obtain rfl := hadmitted h
        exact ⟨issued', hm, hissued', rfl, rfl, Int.not_lt.1 hnow, hdata⟩

theorem readChallenge_call {c : Ceremony} {now : Int} : w.CallOk p config c.userId c.request (w.readChallenge p config c now) := by
  have hadmitted : ∀ held, w.CallOk p config c.userId c.request (admitted held c.request) := by
    intro held
    cases c.request with
    | registration credential =>
      rw [admitted]
      split
      · trivial
      · exact ⟨credential, rfl⟩
    | authentication a => trivial
  rw [readChallenge]
  split
  · trivial
  · split
    · trivial
    · split
      · trivial
      · exact hadmitted _

theorem Inv.read (h : w.Inv p config) {i : Nat} {c : Ceremony} (hc : w.ceremonies[i]? = some c) {now : Int}
    (hfree : ∀ held, (w.readChallenge p config c now).held = some held →
      ∀ (j : Nat) d other, w.ceremonies[j]? = some d → d.phase.held = some other → other.issue ≠ held.issue) :
    (w.setPhase i c (w.readChallenge p config c now)).Inv p config := by
  refine h.proceed hc (.of_eq rfl rfl) rfl rfl (fun _ _ hn => hn) rfl h.sound.own (fun held hheld => ?_)
    (readChallenge_call.grows (.of_eq rfl rfl))
  obtain ⟨issued, hsession, hissued, hseen, hnow, hexpires, hdata⟩ := readChallenge_held hheld
  obtain ⟨⟨issued', hissued', huser⟩, hlast, hunconsumed⟩ := h.session c.userId held.issue hsession
  obtain rfl := some.inj (hissued.symm.trans hissued')
  obtain ⟨clientData, hparse, hchallenge⟩ := clientDataError_none hdata
  have hlt := (lt_length hissued)
  refine ⟨⟨⟨issued, clientData, hissued, huser, hnow ▸ hexpires, hparse, hchallenge⟩, ⟨hseen ▸ hlt, hseen ▸ le_rfl⟩,
    fun m hm _ later => hlast m later hm⟩, hunconsumed, fun j d other hd hother _ => hfree held hheld j d other hd hother⟩

theorem selectRow_spec {userId : String} (held : HeldChallenge) {a : AuthenticationResponse}
    (hgenuine : ∀ id row, (w.findRow fun row => row.credentialId == a.id && row.userId == userId) = some (id, row) →
      a.signedBy p row.publicKey = true → Genuine p config a.authData row.signCount) :
    (∃ message, w.selectRow p userId held a = .rejected message) ∨ ∃ id row signCount,
      w.selectRow p userId held a = .updating held id row signCount ∧ w.AssertionOk p config userId a id row := by
  rw [selectRow]
  split
  · exact .inl ⟨_, rfl⟩
  · next id row hrow =>
    obtain ⟨hstored, htest⟩ := findRow_spec hrow
    rw [Bool.and_eq_true, beq_iff_eq, beq_iff_eq] at htest
    rw [verified]
    split
    · exact .inl ⟨_, rfl⟩
    · next hreplay =>
      split
      · next hsigned =>
        obtain ⟨hhash, hpresent, hlen, hcounter⟩ := hgenuine id row hrow hsigned
        refine .inr ⟨id, row, _, rfl, ⟨row, hstored, htest.2, htest.1, rfl⟩, hsigned, hhash, hpresent, hlen, ?_⟩
        rcases hcounter with ⟨hlong, hne⟩ | hcounter
        · rw [signCountOf_eq hlong] at hreplay
          exact .inl (Nat.lt_of_not_le fun hle => hreplay ⟨hne, hle⟩)
        · exact hcounter
      · exact .inl ⟨_, rfl⟩

section

variable (h : w.Inv p config)
include h

variable {c : Ceremony}

theorem Inv.select {i : Nat} (hc : w.ceremonies[i]? = some c) {held : HeldChallenge}
    (hphase : c.phase = .selecting held) {a : AuthenticationResponse} (hrequest : c.request = .authentication a)
    (hgenuine : ∀ id row, (w.findRow fun row => row.credentialId == a.id && row.userId == c.userId) = some (id, row) →
      a.signedBy p row.publicKey = true → Genuine p config a.authData row.signCount) :
    (w.setPhase i c (w.selectRow p c.userId held a)).Inv p config := by
  refine h.proceed hc (.of_eq rfl rfl) rfl rfl (fun _ _ hn => hn) rfl h.sound.own ?_ ?_
  · intro held' hheld
    rcases selectRow_spec held hgenuine with ⟨message, heq⟩ | ⟨id, row, signCount, heq, -⟩
    · rw [heq] at hheld
      cases hheld
    · rw [heq] at hheld
      obtain rfl := some.inj hheld
      exact h.holds hc (by rw [hphase]; rfl)
  · rcases selectRow_spec held hgenuine with ⟨message, heq⟩ | ⟨id, row, signCount, heq, hok⟩
    · rw [heq]
      trivial
    · rw [heq]
      exact ⟨a, hrequest, hok.grows (.of_eq rfl rfl)⟩

theorem Inv.insert {i : Nat} (hc : w.ceremonies[i]? = some c) {held : HeldChallenge}
    {publicKey : Jwk} {signCount : Nat} (hphase : c.phase = .inserting held publicKey signCount)
    {credential : RegistrationResponse} (hrequest : c.request = .registration credential)
    (hown : ∀ id row, (w.findRow fun row => row.credentialId == credential.id) = some (id, row) → row.userId = c.userId) :
    ((w.upsert c.userId credential publicKey signCount).setPhase i c (.clearing held none)).Inv p config := by
  have hheld : ∀ held', (CeremonyPhase.clearing held none).held = some held' → _ := fun held' hh =>
    @Inv.holds _ _ _ h i c hc held' (by rw [hphase, ← hh]; rfl)
  rw [upsert]
  split
  · next id row hrow =>
    obtain ⟨hstored, -⟩ := findRow_spec hrow
    refine h.proceed hc (@grows_set w _ id row { row with signCount } hstored rfl rfl rfl rfl rfl) rfl rfl (fun _ _ hn => hn) rfl (fun x hx => ?_) hheld
      ⟨credential, hrequest⟩
    rcases mem_append.1 hx with hx | hx
    · exact h.sound.own x hx
    · rw [mem_singleton.1 hx]
      exact hown id row hrow
  · refine h.proceed hc ⟨prefix_refl _, fun id row hrow => ⟨row, ?_, rfl, rfl, rfl⟩⟩ rfl rfl (fun _ _ hn => hn) rfl h.sound.own
      hheld ⟨credential, hrequest⟩
    exact (getElem?_append_left (lt_length hrow)).trans hrow

theorem Inv.update {i : Nat} (hc : w.ceremonies[i]? = some c) {held : HeldChallenge} {id : Nat}
    {row : CredentialRow} {signCount : Nat} (hphase : c.phase = .updating held id row signCount) :
    ({ w with rows := w.rows.modify id fun (row : CredentialRow) => { row with signCount } }.setPhase i c
      (.clearing held (some (id, row)))).Inv p config := by
  have hgrows : ∀ {w' : WebAuthnWorld}, w'.issued = w.issued →
      (w'.rows = w.rows.modify id fun (row : CredentialRow) => { row with signCount }) → w.Grows w' := by
    intro w' hissued hrows
    refine ⟨hissued ▸ prefix_refl _, fun j stored hstored => ?_⟩
    rw [hrows, getElem?_modify, hstored]
    by_cases hj : id = j
    · exact ⟨{ stored with signCount }, by simp [hj], rfl, rfl, rfl⟩
    · exact ⟨stored, by simp [hj], rfl, rfl, rfl⟩
  have hcall : w.CallOk p config c.userId c.request (.clearing held (some (id, row))) := by
    have hcalls := h.calls i c hc
    rw [hphase] at hcalls
    exact hcalls
  exact h.proceed hc (hgrows rfl rfl) rfl rfl (fun _ _ hn => hn) rfl h.sound.own
    (fun held' hh => h.holds hc (by rw [hphase, ← hh]; rfl)) (hcall.grows (hgrows rfl rfl))

theorem Inv.clear {i : Nat} (hc : w.ceremonies[i]? = some c) {held : HeldChallenge}
    {read : Option (Nat × CredentialRow)} (hphase : c.phase = .clearing held read) {acceptance : Acceptance}
    (hacceptance : acceptance = { userId := c.userId, request := c.request, held, read }) :
    ({ w with session := w.session.delete c.userId, accepted := w.accepted ++ [acceptance] }.setPhase i c .resolved).Inv p config := by
  obtain ⟨hok, hunconsumed, hapart⟩ := @Inv.holds _ _ _ h i c hc held (by rw [hphase]; rfl)
  have hgrows : ∀ {w' : WebAuthnWorld}, w'.issued = w.issued → w'.rows = w.rows → w.Grows w' := fun h₁ h₂ => .of_eq h₁ h₂
  have hissue : acceptance.held.issue = held.issue := by rw [hacceptance]
  have hkeeps : ∀ {w' : WebAuthnWorld} {n : Nat}, w'.accepted = w.accepted ++ [acceptance] → w.Unconsumed n → n ≠ held.issue →
      w'.Unconsumed n := by
    intro w' n haccepted hn hne x hx
    rw [haccepted] at hx
    rcases mem_append.1 hx with hx | hx
    · exact hn x hx
    · rw [mem_singleton.1 hx, hissue]
      exact hne.symm
  refine ⟨fun userId n hn => ?_, fun j d other hj hd => ?_, fun j k d e other another hj hk hd he hne => ?_, fun j d hj => ?_, ?_⟩
  · simp only [setPhase, OrderedMap.get_delete] at hn
    split at hn
    · cases hn
    · next huser =>
      obtain ⟨⟨issued, hissued, hmine⟩, hlast, hfree⟩ := h.session userId n hn
      refine ⟨⟨issued, hissued, hmine⟩, hlast, hkeeps rfl hfree ?_⟩
      rintro rfl
      obtain ⟨issued', -, hissued', hmine', -⟩ := hok.issued
      obtain rfl := some.inj (hissued.symm.trans hissued')
      exact huser (hmine.symm.trans hmine')
  · rcases getElem?_set_cases hj with ⟨rfl, rfl⟩ | ⟨hji, hj'⟩
    · cases hd
    · obtain ⟨hok', hfree⟩ := h.held j d other hj' hd
      exact ⟨hok'.grows (hgrows rfl rfl), hkeeps rfl hfree (hapart j d other hj' hd hji)⟩
  · rcases getElem?_set_cases hj with ⟨rfl, rfl⟩ | ⟨-, hj'⟩
    · cases hd
    · rcases getElem?_set_cases hk with ⟨rfl, rfl⟩ | ⟨-, hk'⟩
      · cases he
      · exact h.apart j k d e other another hj' hk' hd he hne
  · rcases getElem?_set_cases hj with ⟨rfl, rfl⟩ | ⟨-, hj'⟩
    · trivial
    · exact (h.calls j d hj').grows (hgrows rfl rfl)
  · refine ⟨fun x hx => ?_, ?_, fun x hx a ha => ?_, h.sound.own⟩
    · rcases mem_append.1 hx with hx | hx
      · exact (h.sound.challenge x hx).grows (hgrows rfl rfl)
      · rw [mem_singleton.1 hx, hacceptance]
        exact hok.grows (hgrows rfl rfl)
    · change ((w.accepted ++ [acceptance]).map fun x => x.held.issue).Nodup
      rw [map_append, map_singleton, hissue]
      refine nodup_append.2 ⟨h.sound.once, nodup_singleton _, fun n hn m hm => ?_⟩
      obtain ⟨x, hx, rfl⟩ := mem_map.1 hn
      rw [mem_singleton.1 hm]
      exact hunconsumed x hx
    · rcases mem_append.1 hx with hx | hx
      · obtain ⟨id, row, hread, hok'⟩ := h.sound.assertion x hx a ha
        exact ⟨id, row, hread, hok'.grows (hgrows rfl rfl)⟩
      · have hcall := h.calls i c hc
        rw [mem_singleton.1 hx, hacceptance] at ha ⊢
        rw [hphase] at hcall
        rcases read with _ | ⟨id, row⟩
        · obtain ⟨credential, hrequest⟩ := hcall
          cases hrequest.symm.trans ha
        · obtain ⟨a', hrequest, hok'⟩ := hcall
          obtain rfl := CeremonyRequest.authentication.inj (hrequest.symm.trans ha)
          exact ⟨id, row, rfl, hok'.grows (hgrows rfl rfl)⟩

theorem Inv.begin (userId challenge : String) (now : Int) : (w.step p config (.begin userId challenge now)).Inv p config := by
  obtain ⟨new, hnew⟩ : ∃ new : IssuedChallenge, new = { userId, challenge, expiresAt := now + config.challengeExpiryMs } := ⟨_, rfl⟩
  have hgrows : w.Grows (w.step p config (.begin userId challenge now)) :=
    ⟨prefix_append _ _, fun id row hrow => ⟨row, hrow, rfl, rfl, rfl⟩⟩
  have hissued : (w.step p config (.begin userId challenge now)).issued = w.issued ++ [new] := by rw [hnew]; rfl
  refine ⟨fun user n hn => ?_, fun j d held hj hd => ?_, h.apart, fun j d hj => (h.calls j d hj).grows hgrows,
    h.sound.grows hgrows rfl h.sound.own⟩
  · simp only [step, OrderedMap.get_set] at hn
    rw [hissued]
    split at hn
    · -- It is the last one of all.
      next huser =>
      obtain rfl := some.inj hn
      refine ⟨⟨new, getElem?_concat_length, by rw [hnew, huser]⟩, fun m later hm hlater => ?_, fun x hx heq => ?_⟩
      · have := (lt_length hlater)
        rw [length_append, length_singleton] at this
        omega
      · obtain ⟨hlt, hle⟩ := (h.sound.challenge x hx).seen
        omega
    · next huser =>
      obtain ⟨⟨issued, hmine, howner⟩, hlast, hfree⟩ := h.session user n hn
      refine ⟨⟨issued, by rw [getElem?_append_left (lt_length hmine), hmine], howner⟩, fun m later hm hlater => ?_, hfree⟩
      rcases getElem?_concat_cases hlater with hlater | ⟨-, rfl⟩
      · exact hlast m later hm hlater
      · rw [hnew]
        exact fun heq => huser heq.symm
  · obtain ⟨hok, hfree⟩ := h.held j d held hj hd
    exact ⟨hok.grows hgrows, hfree⟩

theorem Inv.finish (userId : String) (request : CeremonyRequest) : (w.step p config (.finish userId request)).Inv p config := by
  have hgrows : w.Grows (w.step p config (.finish userId request)) := .of_eq rfl rfl
  refine ⟨h.session, fun j d held hj hd => ?_, fun j k d e held other hj hk hd he hne => ?_, fun j d hj => ?_,
    h.sound.grows hgrows rfl h.sound.own⟩
  · rcases getElem?_concat_cases hj with hj | ⟨-, rfl⟩
    · obtain ⟨hok, hfree⟩ := h.held j d held hj hd
      exact ⟨hok.grows hgrows, hfree⟩
    · cases hd
  · rcases getElem?_concat_cases hj with hj | ⟨-, rfl⟩
    · rcases getElem?_concat_cases hk with hk | ⟨-, rfl⟩
      · exact h.apart j k d e held other hj hk hd he hne
      · cases he
    · cases hd
  · rcases getElem?_concat_cases hj with hj | ⟨-, rfl⟩
    · exact (h.calls j d hj).grows hgrows
    · trivial

theorem Inv.reject {i : Nat} (hc : w.ceremonies[i]? = some c) (message : String) : (w.setPhase i c (.rejected message)).Inv p config :=
  h.proceed hc (.of_eq rfl rfl) rfl rfl (fun _ _ hn => hn) rfl h.sound.own nofun trivial

theorem Inv.expire {i : Nat} (hc : w.ceremonies[i]? = some c) (message : String) :
    ({ w with session := w.session.delete c.userId }.setPhase i c (.rejected message)).Inv p config := by
  refine h.proceed hc (.of_eq rfl rfl) rfl rfl (fun userId n hn => ?_) rfl h.sound.own nofun trivial
  simp only [setPhase, OrderedMap.get_delete] at hn
  split at hn
  · cases hn
  · exact hn

theorem Inv.stepCeremony {i : Nat} (hc : w.ceremonies[i]? = some c) {e : WebAuthnEvent}
    (he : e.call = some i) (hg : w.Trusted p config e) : (w.stepCeremony p config i c e).Inv p config := by
  cases e with
  | read j now =>
    obtain rfl := some.inj he
    rw [WebAuthnWorld.stepCeremony]
    split
    · next hphase => exact h.read hc (hg c hc (by rw [hphase]))
    · exact h
  | expire j =>
    rw [WebAuthnWorld.stepCeremony]
    split
    · exact h.expire hc _
    · exact h
  | insert j =>
    obtain rfl := some.inj he
    rw [WebAuthnWorld.stepCeremony]
    split
    · next held publicKey signCount credential hphase hrequest =>
      exact h.insert hc hphase hrequest (hg c held publicKey signCount credential hc hphase hrequest)
    · exact h
  | select j =>
    obtain rfl := some.inj he
    rw [WebAuthnWorld.stepCeremony]
    split
    · next held a hphase hrequest => exact h.select hc hphase hrequest (hg c held a hc hphase hrequest)
    · exact h
  | update j =>
    rw [WebAuthnWorld.stepCeremony]
    split
    · next held id row signCount hphase => exact h.update hc hphase
    · exact h
  | clear j =>
    rw [WebAuthnWorld.stepCeremony]
    split
    · next held read hphase => exact h.clear hc hphase rfl
    · exact h
  | fail j =>
    rw [WebAuthnWorld.stepCeremony]
    split
    · exact h
    · exact h
    · exact h.reject hc _
  | begin | finish => cases he

theorem Inv.step (e : WebAuthnEvent) (hg : w.Trusted p config e) : (w.step p config e).Inv p config := by
  have hcall : ∀ i, e.call = some i →
      ((e.call.bind fun i => w.ceremonies[i]?.map fun c => w.stepCeremony p config i c e).getD w).Inv p config := by
    intro i hi
    rw [hi, Option.bind_some]
    cases hc : w.ceremonies[i]? with
    | none => exact h
    | some c => exact h.stepCeremony hc hi hg
  cases e with
  | begin userId challenge now => exact h.begin userId challenge now
  | finish userId request => exact h.finish userId request
  | read i now => exact hcall i rfl
  | expire i => exact hcall i rfl
  | insert i => exact hcall i rfl
  | select i => exact hcall i rfl
  | update i => exact hcall i rfl
  | clear i => exact hcall i rfl
  | fail i => exact hcall i rfl

end

/-- Over any table of credentials, every run that is trusted accepts only what it should. -/
theorem sound_of_trusted (p : Primitives) (config : WebAuthnConfig) (rows : List CredentialRow) (es : List WebAuthnEvent)
    (hes : Guarded (step p config) (Trusted p config) { rows } es) : (run (step p config) { rows } es).Sound p config := by
  have hnone : ∀ (i : Nat) c, ({ rows } : WebAuthnWorld).ceremonies[i]? ≠ some c := by simp
  have hinit : Inv p config { rows } :=
    ⟨fun _ _ hn => by simp at hn, fun i c _ hc => absurd hc (hnone i c), fun i _ c _ _ _ hc => absurd hc (hnone i c),
      fun i c hc => absurd hc (hnone i c), ⟨by simp, nodup_nil, by simp, by simp⟩⟩
  exact (run_invariant_of_guarded (P := Inv p config) (step p config) (fun _ e h hg => h.step e hg) es hes hinit).sound

/-! ## Runs -/

/-- A hash of zeros, one good signature, and client data of either ceremony. -/
def testPrimitives : Primitives where
  sha256 _ := List.replicate 32 0
  verifies _ _ signature := signature = [1]
  parseClientData content :=
    some { type := some (if content = [0] then "webauthn.create" else "webauthn.get"), challenge := some "c", origin := some "o" }

def testConfig : WebAuthnConfig := { rpId := [], origin := "o" }

/-- A credential of `bob`, with four signatures. -/
def testRow : CredentialRow := { userId := "bob", credentialId := "k", publicKey := .ec [] [], signCount := 4 }

/-- An assertion, with no client data to speak of. -/
def testAssertion (authenticatorData : String) : AuthenticationResponse :=
  { id := "k", clientDataJSON := "", authenticatorData, signature := "AQ==" }

/-- One ceremony, begun and finished. -/
def testRun (a : AuthenticationResponse) : List WebAuthnEvent :=
  [.begin "bob" "c" 0, .finish "bob" (.authentication a), .read 0 1, .select 0, .update 0, .clear 0]

/-- What is accepted from `a` by one ceremony. -/
def testAcceptance (a : AuthenticationResponse) : Acceptance :=
  { userId := "bob", request := .authentication a, held := { issue := 0, seen := 1, now := 1 }, read := some (0, testRow) }

/-- Data for the relying party, with the counter 5. -/
def goodData : String := "AAAAAAAAAAAAAAAAAAAAAAAAAAAAAAAAAAAAAAAAAAABAAAABQ=="

theorem sound_of_trusted_one :
    (run (step testPrimitives testConfig) { rows := [testRow] } (testRun (testAssertion goodData))).Sound testPrimitives testConfig := by
  refine sound_of_trusted testPrimitives testConfig [testRow] _ ⟨trivial, trivial, ?_, ?_, trivial, trivial, trivial⟩
  · rintro c - - held - (_ | j) d other hd hother
    · obtain rfl := some.inj hd
      cases hother
    · cases hd
  · rintro c held a hc - hrequest id row hfind -
    obtain ⟨hrow, -⟩ := findRow_spec hfind
    have hrow : [testRow][id]? = some row := hrow
    obtain rfl : row = testRow := by
      cases id with
      | zero => exact (some.inj hrow).symm
      | succ id => cases hrow
    have hc : (run (step testPrimitives testConfig) { rows := [testRow] }
        ((testRun (testAssertion goodData)).take 3)).ceremonies[0]? = some c := hc
    have ha : (run (step testPrimitives testConfig) { rows := [testRow] }
        ((testRun (testAssertion goodData)).take 3)).ceremonies[0]?.map Ceremony.request =
          some (.authentication (testAssertion goodData)) := by decide +kernel
    rw [hc, Option.map_some, hrequest] at ha
    obtain rfl := CeremonyRequest.authentication.inj (some.inj ha)
    unfold Genuine userPresent
    decide +kernel

/-- Accepted are: no authenticator data at all; a counter that is not behind the stored one; and one challenge twice. And a
registration changes the row of another user. -/
theorem not_sound :
    ¬ (run (step testPrimitives testConfig) { rows := [testRow] } (testRun (testAssertion ""))).Sound testPrimitives testConfig ∧
    ¬ (run (step testPrimitives testConfig) { rows := [{ testRow with signCount := 5 }] } (testRun (testAssertion goodData))).Sound
      testPrimitives testConfig ∧
    ¬ (run (step testPrimitives testConfig) { rows := [testRow] }
      [.begin "bob" "c" 0, .finish "bob" (.authentication (testAssertion goodData)),
        .finish "bob" (.authentication (testAssertion goodData)), .read 0 1, .read 1 1, .select 0, .select 1, .update 0, .update 1,
        .clear 0, .clear 1]).Sound testPrimitives testConfig ∧
    ¬ (run (step testPrimitives testConfig) { rows := [testRow] } [.begin "alice" "c" 0,
        .finish "alice" (.registration { id := "k", clientDataJSON := "AA==", attestationObject :=
          "oWhhdXRoRGF0YVhHAAAAAAAAAAAAAAAAAAAAAAAAAAAAAAAAAAAAAAAAAABBAAAACQAAAAAAAAAAAAAAAAAAAAAAAQelAQIDJiABIUIBAiJCAwQ=" }),
        .read 0 1, .insert 0]).Sound testPrimitives testConfig := by
  refine ⟨fun h => ?_, fun h => ?_, fun h => ?_, fun h => ?_⟩
  · obtain ⟨id, row, -, hok⟩ := h.assertion (testAcceptance (testAssertion "")) (by decide +kernel) _ rfl
    exact absurd hok.rpIdHash (by decide)
  · obtain ⟨id, row, hread, hok⟩ := h.assertion
      { testAcceptance (testAssertion goodData) with read := some (0, { testRow with signCount := 5 }) } (by decide +kernel) _ rfl
    obtain ⟨rfl, rfl⟩ := Prod.mk.inj (some.inj hread)
    have hcounter := hok.counter
    unfold CounterOk at hcounter
    exact absurd hcounter (by decide +kernel)
  · exact absurd h.once (by decide +kernel)
  · exact absurd h.own (by decide +kernel)

end WebAuthnWorld

end StreetJS.Auth
