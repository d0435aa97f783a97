import ExomonadHarness.Support.Checked
import ExomonadHarness.Support.Run

/-! The credential file of `chatgpt.rs`: refreshes and logins of any number of processes. -/

namespace ExomonadHarness.Transport.Credentials

open Checked

inductive LoginError where
  | storage
  | invalidCredentials
  | identity
  | permissions
  | concurrentChange
  deriving DecidableEq

structure Record where
  version : ℕ
  generation : String
  issuer : String
  subject : String
  email : Option String
  clientId : String
  extAgentHostId : String
  accessToken : String
  refreshToken : String
  idToken : String
  tokenType : String
  scopes : List String
  expiresAt : ℕ
  deriving DecidableEq

structure Tokens where
  accessToken : String
  refreshToken : String
  idToken : Option String
  tokenType : String
  expiresIn : ℕ
  scope : String
  deriving DecidableEq

/-- The `aud` claim: one text, a list, or anything else. -/
inductive Audience where
  | one
  | many (count : ℕ)
  | other
  deriving DecidableEq

def Audience.count : Audience → Option ℕ
  | one => some 1
  | many count => some count
  | other => none

structure Identity where
  sub : String
  email : Option String
  nonce : Option String
  iat : ℕ
  exp : ℕ
  aud : Audience
  azp : Option String
  deriving DecidableEq

/-- What the rules take from elsewhere: the version of a UUID that parses, Unicode white
space, and the claims of a token signed by one of the keys for a client at a time. -/
structure Host (Keys : Type) where
  uuidVersion : String → Option ℕ
  isWhitespace : Char → Bool
  decode : Keys → String → String → ℕ → Option Identity

def issuerUrl : String := "https://auth.openai.com"
def dynamicClient : String := "dynamic_agent_client"

def requiredScopes (scopes : List String) : Bool :=
  ["openid", "offline_access", "resource.invoke", "chatgpt.tokens.use.direct"].all (· ∈ scopes)

def isBearer (kind : String) : Bool :=
  kind.toList.map Char.toLower = "bearer".toList

def splitAsciiWhitespace (text : String) : List String :=
  ((text.toList.splitOnP (· ∈ [' ', '\t', '\n', '\x0c', '\r'])).filter (!·.isEmpty)).map String.ofList

section

variable {Keys : Type} (host : Host Keys)

def issuedClient (id : String) : Bool :=
  !id.isEmpty && id ≠ dynamicClient && id.utf8ByteSize ≤ 512 && !id.toList.any host.isWhitespace

def validHostId (id : String) : Bool :=
  "urn:uuid:".toList.isPrefixOf id.toList &&
    host.uuidVersion (String.ofList (id.toList.drop 9)) = some 4

def Record.valid (record : Record) : Bool :=
  record.version = 1 && record.issuer = issuerUrl && !record.subject.isEmpty &&
    issuedClient host record.clientId && !record.accessToken.isEmpty &&
    !record.refreshToken.isEmpty && !record.idToken.isEmpty && isBearer record.tokenType &&
    requiredScopes record.scopes && validHostId host record.extAgentHostId &&
    (host.uuidVersion record.generation).isSome

def load (stored : Option Record) : Except LoginError (Option Record) :=
  match stored with
  | none => .ok none
  | some record => if record.valid host then .ok (some record) else .error .invalidCredentials

def verify (keys : Keys) (now : ℕ) (token clientId : String) (nonce subject : Option String) :
    Except LoginError Identity := do
  let identity ← okOr (host.decode keys token clientId now) .identity
  let count ← okOr identity.aud.count .identity
  require (!identity.sub.isEmpty && identity.iat ≤ now + 5 && now < identity.exp &&
    identity.iat < identity.exp && nonce.all (identity.nonce = some ·) &&
    subject.all (identity.sub = ·) && (count ≤ 1 || identity.azp = some clientId) &&
    identity.azp.all (· = clientId)) .identity
  return identity

/-- The new generation is drawn by the caller. -/
def applyTokens (record : Record) (tokens : Tokens) (identity : Option Identity)
    (receivedAt now : ℕ) (generation : String) : Except LoginError Record := do
  require (!tokens.accessToken.isEmpty && !tokens.refreshToken.isEmpty &&
    isBearer tokens.tokenType && tokens.expiresIn ≠ 0 && tokens.expiresIn ≤ 86400)
    .invalidCredentials
  let scopes := splitAsciiWhitespace tokens.scope
  require (requiredScopes scopes) .permissions
  require (receivedAt + tokens.expiresIn < 2 ^ 64 && receivedAt ≤ now &&
    now < receivedAt + tokens.expiresIn) .invalidCredentials
  let record := match identity with
    | some identity => { record with subject := identity.sub, email := identity.email }
    | none => record
  let record := { record with
    idToken := tokens.idToken.getD record.idToken
    accessToken := tokens.accessToken
    refreshToken := tokens.refreshToken
    tokenType := tokens.tokenType
    scopes := scopes
    expiresAt := receivedAt + tokens.expiresIn
    generation := generation }
  require (record.valid host) .invalidCredentials
  return record

/-- The record a first login fills in. -/
def blank (clientId hostId : String) : Record where
  version := 1
  generation := ""
  issuer := issuerUrl
  subject := ""
  email := none
  clientId := clientId
  extAgentHostId := hostId
  accessToken := ""
  refreshToken := ""
  idToken := ""
  tokenType := ""
  scopes := []
  expiresAt := 0

structure Attempt where
  nonce : String
  hostId : String
  selected : Option Record
  deriving DecidableEq

/-- The body of `credentials` from the answer of the token endpoint to the save. -/
def refreshed (keys : Keys) (record : Record) (tokens : Tokens) (receivedAt now : ℕ)
    (generation : String) : Except LoginError Record := do
  let identity ← tokens.idToken.mapM fun token =>
    verify host keys now token record.clientId none (some record.subject)
  applyTokens host record tokens identity receivedAt now generation

/-- The body of `finish_login` from the answer of the token endpoint to the lock. -/
def registered (keys : Keys) (attempt : Attempt) (clientId : String) (tokens : Tokens)
    (receivedAt now : ℕ) (generation : String) : Except LoginError Record := do
  let token ← okOr tokens.idToken .identity
  let identity ← verify host keys now token clientId (some attempt.nonce)
    (attempt.selected.map (·.subject))
  applyTokens host (blank clientId attempt.hostId) tokens (some identity) receivedAt now generation

end

/-- What `credentials` returns in the end. -/
def access (record : Record) (now : ℕ) : Except LoginError String :=
  if record.expiresAt ≤ now then .error .invalidCredentials else .ok record.accessToken

def Tokens.pair (tokens : Tokens) : String × String :=
  (tokens.accessToken, tokens.refreshToken)

def Record.pair (record : Record) : String × String :=
  (record.accessToken, record.refreshToken)

/-- Where a process stands. The lock is held while a refresh token is out. -/
inductive Phase where
  | idle
  | refreshing (record : Record)
  | answered (record : Record) (tokens : Tokens) (receivedAt : ℕ)
  | attempting (attempt : Attempt)
  | exchanged (attempt : Attempt) (clientId : String) (tokens : Tokens) (receivedAt : ℕ)
  | registered (attempt : Attempt) (record : Record)

namespace Phase

/-- The record that is being refreshed. -/
def refreshes : Phase → Option Record
  | refreshing record | answered record _ _ => some record
  | _ => none

/-- The login that is under way. -/
def attempt : Phase → Option Attempt
  | attempting attempt | exchanged attempt _ _ _ | registered attempt _ => some attempt
  | _ => none

/-- The access and refresh token that have been received and not been stored. -/
def pending : Phase → Option (String × String)
  | answered _ tokens _ | exchanged _ _ tokens _ => some tokens.pair
  | registered _ record => some record.pair
  | _ => none

end Phase

variable {Process : Type} [DecidableEq Process]

structure State (Process : Type) where
  now : ℕ
  stored : Option Record
  holder : Option Process
  phase : Process → Phase

def State.move (state : State Process) (process : Process) (phase : Phase) : State Process :=
  { state with phase := Function.update state.phase process phase }

inductive Event (Process : Type) where
  | tick
  | served (process : Process) (result : Except LoginError String)
  | sent (process : Process) (refreshToken : String)
  | answered (process : Process) (tokens : Tokens)
  | refreshed (process : Process) (old record : Record) (result : Except LoginError String)
  | began (process : Process)
  | exchanged (process : Process) (tokens : Tokens)
  | registered (process : Process)
  | loggedIn (process : Process) (record : Record)
  | failed (process : Process)

namespace Event

/-- The answer of the token endpoint. -/
def tokens : Event Process → Option Tokens
  | answered _ tokens | exchanged _ tokens => some tokens
  | _ => none

/-- The record that a login saved. -/
def login : Event Process → Option Record
  | loggedIn _ record => some record
  | _ => none

/-- The record that was saved. -/
def saved : Event Process → Option Record
  | refreshed _ _ record _ | loggedIn _ record => some record
  | _ => none

end Event

/-- A process may fail at any point, which gives the lock back and leaves the file as it is. A
save counts as one once the file is renamed: what is not `synced` after it ends in an error
with the new record in the file. The clock may be set back. -/
inductive Step {Keys : Type} (host : Host Keys) :
    State Process → Event Process → State Process → Prop where
  | tick (state : State Process) (now : ℕ) : Step host state .tick { state with now }
  | serve (state : State Process) (process : Process) (record : Record) (now : ℕ)
      (free : state.holder = none) (idle : state.phase process = .idle)
      (loaded : load host state.stored = .ok (some record)) (live : state.now < record.expiresAt) :
      Step host state (.served process (access record now)) { state with now }
  | send (state : State Process) (process : Process) (record : Record)
      (free : state.holder = none) (idle : state.phase process = .idle)
      (loaded : load host state.stored = .ok (some record)) (expired : record.expiresAt ≤ state.now) :
      Step host state (.sent process record.refreshToken)
        { state.move process (.refreshing record) with holder := some process }
  | answer (state : State Process) (process : Process) (record : Record) (tokens : Tokens)
      (waits : state.phase process = .refreshing record) :
      Step host state (.answered process tokens)
        (state.move process (.answered record tokens state.now))
  | refresh (state : State Process) (process : Process) (old record : Record) (tokens : Tokens)
      (receivedAt now : ℕ) (keys : Keys) (generation : String) (synced : Bool)
      (waits : state.phase process = .answered old tokens receivedAt)
      (fresh : refreshed host keys old tokens receivedAt state.now generation = .ok record) :
      Step host state
        (.refreshed process old record (if synced then access record now else .error .storage))
        { state.move process .idle with now, stored := some record, holder := none }
  | begin (state : State Process) (process : Process) (nonce hostId : String)
      (selected : Option Record) (free : state.holder = none) (idle : state.phase process = .idle)
      (loaded : load host state.stored = .ok selected) :
      Step host state (.began process) (state.move process (.attempting ⟨nonce, hostId, selected⟩))
  | exchange (state : State Process) (process : Process) (attempt : Attempt) (clientId : String)
      (tokens : Tokens) (waits : state.phase process = .attempting attempt) :
      Step host state (.exchanged process tokens)
        (state.move process (.exchanged attempt clientId tokens state.now))
  | register (state : State Process) (process : Process) (attempt : Attempt) (clientId : String)
      (tokens : Tokens) (receivedAt : ℕ) (keys : Keys) (generation : String) (record : Record)
      (waits : state.phase process = .exchanged attempt clientId tokens receivedAt)
      (fresh : registered host keys attempt clientId tokens receivedAt state.now generation =
        .ok record) :
      Step host state (.registered process) (state.move process (.registered attempt record))
  | logIn (state : State Process) (process : Process) (attempt : Attempt) (record : Record)
      (latest : Option Record) (free : state.holder = none)
      (waits : state.phase process = .registered attempt record)
      (loaded : load host state.stored = .ok latest)
      (same : latest.map (·.generation) = attempt.selected.map (·.generation)) :
      Step host state (.loggedIn process record)
        { state.move process .idle with stored := some record }
  | fail (state : State Process) (process : Process) :
      Step host state (.failed process)
        { state.move process .idle with
          holder := if state.holder = some process then none else state.holder }

/-! What the checks leave of a record. -/

section

variable {Keys : Type} {host : Host Keys} {keys : Keys} {old record : Record} {tokens : Tokens}
  {receivedAt now : ℕ} {generation : String}

theorem applyTokens_eq_ok {identity : Option Identity}
    (applied : applyTokens host old tokens identity receivedAt now generation = .ok record) :
    record.pair = tokens.pair ∧ record.subject = (identity.map (·.sub)).getD old.subject := by
  simp only [applyTokens, bind_eq_ok, require_eq_ok, pure_eq_ok] at applied
  obtain ⟨-, -, -, -, -, -, -, -, rfl⟩ := applied
  cases identity <;> exact ⟨rfl, rfl⟩

theorem refreshed_eq_ok (fresh : refreshed host keys old tokens receivedAt now generation = .ok record) :
    record.pair = tokens.pair ∧ record.subject = old.subject := by
  rw [refreshed, bind_eq_ok] at fresh
  obtain ⟨identity, verified, applied⟩ := fresh
  obtain ⟨pair, subject⟩ := applyTokens_eq_ok applied
  refine ⟨pair, subject.trans ?_⟩
  cases held : tokens.idToken with
  | none =>
    rw [held] at verified
    obtain rfl := Except.ok.inj verified
    rfl
  | some token =>
    rw [held] at verified
    obtain ⟨claims, checked, rfl⟩ := map_eq_ok.mp verified
    simp only [verify, bind_eq_ok, okOr_eq_ok, require_eq_ok, pure_eq_ok] at checked
    obtain ⟨given, -, _, -, _, tests, rfl⟩ := checked
    simp only [Bool.and_eq_true, Option.all_some, decide_eq_true_eq] at tests
    exact tests.1.1.2

theorem registered_eq_ok {attempt : Attempt} {clientId : String}
    (fresh : registered host keys attempt clientId tokens receivedAt now generation = .ok record) :
    record.pair = tokens.pair := by
  simp only [registered, bind_eq_ok] at fresh
  obtain ⟨_, -, _, -, applied⟩ := fresh
  exact (applyTokens_eq_ok applied).1

end

/-! The refresh tokens that may still be sent. -/

variable {Keys : Type} {host : Host Keys} {start : Option Record} {state next : State Process}
  {event : Event Process} {events : List (Event Process)} {process : Process}

/-- The tokens in the file, and those that a process has received and not stored. -/
def slot (stored : Option Record) (phase : Process → Phase) : Option Process → Option (String × String)
  | none => stored.map (·.pair)
  | some process => (phase process).pending

/-- The tokens of the first record and of every answer, oldest first. -/
def issued (start : Option Record) (events : List (Event Process)) : List (String × String) :=
  start.toList.map (·.pair) ++ events.filterMap fun event => event.tokens.map (·.pair)

/-- A process has not refreshed the file. -/
def Unsaved (process : Process) (events : List (Event Process)) : Prop :=
  ∀ old record result, .refreshed process old record result ∉ events

/-- The call of a process has failed before it refreshed the file. -/
def Broken (process : Process) (events : List (Event Process)) : Prop :=
  ∃ early late, events = early ++ .failed process :: late ∧ Unsaved process early

/-- What a step does to the tokens: they are dropped or change places, or come in with an
answer. -/
inductive Moves (slot : Option Process → Option (String × String)) (event : Event Process) :
    (Option Process → Option (String × String)) → Prop where
  | carry {later} (source : Equiv.Perm (Option Process)) (quiet : event.tokens = none)
      (fewer : ∀ place, later place = slot (source place) ∨ later place = none) :
      Moves slot event later
  | gain (process : Process) {tokens : Tokens} (given : event.tokens = some tokens) :
      Moves slot event (Function.update slot (some process) (some tokens.pair))

theorem slot_update (stored : Option Record) (phase : Process → Phase) (process : Process)
    (changed : Phase) : slot stored (Function.update phase process changed) =
      Function.update (slot stored phase) (some process) changed.pending := by
  funext place
  cases place with
  | none => rfl
  | some other =>
    by_cases same : other = process
    · subst same
      simp [slot]
    · simp [slot, same]

/-- A record is saved by the process that got its tokens. -/
theorem slot_store {stored : Option Record} {phase : Process → Phase} {process : Process}
    {record : Record} (pending : (phase process).pending = some record.pair) (place : Option Process) :
    slot (some record) (Function.update phase process .idle) place =
        slot stored phase (Equiv.swap none (some process) place) ∨
      slot (some record) (Function.update phase process .idle) place = none := by
  rw [slot_update]
  by_cases mine : place = some process
  · exact .inr (by rw [mine, Function.update_self]; rfl)
  · rw [Function.update_of_ne mine]
    cases place with
    | none => exact .inl (by rw [Equiv.swap_apply_left, slot, slot, pending]; rfl)
    | some other => exact .inl (by rw [Equiv.swap_apply_of_ne_of_ne (by simp) mine]; rfl)

theorem Step.moves (taken : Step host state event next) :
    Moves (slot state.stored state.phase) event (slot next.stored next.phase) := by
  have dropped (process : Process) (phase : Phase) (none : phase.pending = none) (place) :
      slot state.stored (Function.update state.phase process phase) place =
          slot state.stored state.phase place ∨
        slot state.stored (Function.update state.phase process phase) place = .none := by
    rw [slot_update, none]
    by_cases same : place = some process
    · exact .inr (by rw [same, Function.update_self])
    · exact .inl (by rw [Function.update_of_ne same])
  cases taken with
  | tick | serve => exact .carry 1 rfl fun place => .inl rfl
  | send process record => exact .carry 1 rfl (dropped process _ rfl)
  | answer process record tokens =>
    simp only [State.move, slot_update]
    exact .gain process rfl
  | refresh process old record tokens receivedAt now keys generation synced waits fresh =>
    refine .carry (Equiv.swap none (some process)) rfl (slot_store ?_)
    rw [waits, Phase.pending, (refreshed_eq_ok fresh).1]
  | begin process => exact .carry 1 rfl (dropped process _ rfl)
  | exchange process attempt clientId tokens =>
    simp only [State.move, slot_update]
    exact .gain process rfl
  | register process attempt clientId tokens receivedAt keys generation record waits fresh =>
    refine .carry 1 rfl fun place => .inl ?_
    have pair : slot state.stored state.phase (some process) = some record.pair := by
      simp [slot, waits, Phase.pending, registered_eq_ok fresh]
    simp only [State.move, slot_update, Phase.pending, ← pair, Function.update_eq_self]
    rfl
  | logIn process attempt record latest free waits =>
    refine .carry (Equiv.swap none (some process)) rfl (slot_store ?_)
    rw [waits, Phase.pending]
  | fail process => exact .carry 1 rfl (dropped process _ rfl)

/-- The refresh token at a place. -/
def Holds (slot : Option Process → Option (String × String)) (place : Option Process)
    (token : String) : Prop :=
  (slot place).map Prod.snd = some token

def tokensOf (start : Option Record) (events : List (Event Process)) : List String :=
  (issued start events).map Prod.snd

omit [DecidableEq Process] in
theorem issued_append (start : Option Record) (events : List (Event Process)) (event : Event Process) :
    issued start (events ++ [event]) =
      issued start events ++ (event.tokens.map (·.pair)).toList := by
  rw [issued, issued, List.filterMap_append, ← List.append_assoc]
  cases event <;> rfl

/-- What holds of the tokens when no answer repeats a refresh token. -/
structure Apart (start : Option Record) (events : List (Event Process))
    (slot : Option Process → Option (String × String)) : Prop where
  known : ∀ {place pair}, slot place = some pair → pair ∈ issued start events
  apart : ∀ {one other token}, Holds slot one token → Holds slot other token → one = other

omit [DecidableEq Process] in
theorem Apart.mem {slot : Option Process → Option (String × String)} {place : Option Process}
    {token : String} (apart : Apart start events slot) (holds : Holds slot place token) :
    token ∈ tokensOf start events := by
  obtain ⟨pair, found, rfl⟩ := Option.map_eq_some_iff.mp holds
  exact List.mem_map_of_mem (apart.known found)

section

variable {slot later : Option Process → Option (String × String)} {token : String}

/-- A token that is nowhere stays so, and one that is stored over is nowhere. -/
theorem Apart.moves (apart : Apart start events slot) (moves : Moves slot event later)
    (distinct : (tokensOf start (events ++ [event])).Nodup) :
    Apart start (events ++ [event]) later ∧ ∀ token ∈ tokensOf start events,
      (∀ place, Holds later place token → ∃ place, Holds slot place token) := by
  rw [tokensOf, issued_append, List.map_append, List.nodup_append] at distinct
  have more {pair} (old : pair ∈ issued start events) : pair ∈ issued start (events ++ [event]) := by
    rw [issued_append]
    exact List.mem_append_left _ old
  cases moves with
  | carry source quiet fewer =>
    have held {place token} (holds : Holds later place token) : Holds slot (source place) token := by
      rcases fewer place with same | none
      · rwa [Holds, ← same]
      · rw [Holds, none] at holds
        cases holds
    refine ⟨⟨fun {place pair} found => ?_, fun one other => source.injective
      (apart.apart (held one) (held other))⟩, fun token _ place holds => ⟨_, held holds⟩⟩
    rcases fewer place with same | none
    · exact more (apart.known (same ▸ found))
    · exact nomatch none.symm.trans found
  | @gain process tokens given =>
    rw [given] at distinct
    have new {token} (old : token ∈ tokensOf start events) : tokens.refreshToken ≠ token :=
      fun same => distinct.2.2 token old token (by simp [← same, Tokens.pair]) rfl
    have held {place token} (holds : Holds (Function.update slot (some process) (some tokens.pair))
        place token) : (place = some process ∧ tokens.refreshToken = token) ∨ Holds slot place token := by
      by_cases same : place = some process
      · subst same
        rw [Holds, Function.update_self] at holds
        exact .inl ⟨rfl, Option.some.inj holds⟩
      · rw [Holds, Function.update_of_ne same] at holds
        exact .inr holds
    refine ⟨⟨fun {place pair} found => ?_, fun {one other token} first second => ?_⟩,
      fun token old place holds => ?_⟩
    · by_cases same : place = some process
      · subst same
        rw [Function.update_self] at found
        rw [issued_append, given, ← Option.some.inj found]
        exact List.mem_append_right _ (List.mem_singleton_self _)
      · rw [Function.update_of_ne same] at found
        exact more (apart.known found)
    · rcases held first, held second with ⟨⟨rfl, mine⟩ | old, ⟨rfl, yours⟩ | known⟩
      · rfl
      · exact absurd mine (new (apart.mem known))
      · exact absurd yours (new (apart.mem old))
      · exact apart.apart old known
    · rcases held holds with ⟨-, same⟩ | before
      · exact absurd same (new old)
      · exact ⟨place, before⟩

end

/-- The lock is held for the record in the file, and the refresh token of a call that is not
broken is either the one in the file, with the lock held, or gone. -/
structure Sound (start : Option Record) (events : List (Event Process)) (state : State Process) :
    Prop extends Apart start events (slot state.stored state.phase) where
  locked : ∀ {process record}, (state.phase process).refreshes = some record →
    state.holder = some process ∧ state.stored = some record
  spent : ∀ {before after process token}, events = before ++ .sent process token :: after →
    ¬Broken process after →
    (Unsaved process after ∧ state.holder = some process ∧
      Holds (slot state.stored state.phase) none token) ∨
    (token ∈ tokensOf start events ∧ ∀ place, ¬Holds (slot state.stored state.phase) place token)
  subject : state.stored.map (·.subject) =
    ((events.filterMap Event.login).getLast?.or start).map (·.subject)

theorem load_eq_ok {stored latest : Option Record} (loaded : load host stored = .ok latest) :
    stored = latest := by
  cases stored with
  | none => exact Except.ok.inj loaded
  | some held =>
    rw [load] at loaded
    split at loaded
    · exact Except.ok.inj loaded
    · cases loaded

/-- A process other than the one that moved keeps its phase. -/
theorem update_cases {Value : Type} (read : Phase → Option Value) {phases : Process → Phase}
    {mover : Process} {phase : Phase} {value : Value}
    (held : read (Function.update phases mover phase process) = some value) :
    (process = mover ∧ read phase = some value) ∨
      process ≠ mover ∧ read (phases process) = some value := by
  by_cases same : process = mover
  · subst same
    rw [Function.update_self] at held
    exact .inl ⟨rfl, held⟩
  · rw [Function.update_of_ne same] at held
    exact .inr ⟨same, held⟩

omit [DecidableEq Process] in
theorem holds_stored {stored : Option Record} {phase : Process → Phase} {record : Record}
    (held : stored = some record) : Holds (slot stored phase) none record.refreshToken := by
  rw [held]
  rfl

theorem Step.locked (taken : Step host state event next)
    (locked : ∀ {process record}, (state.phase process).refreshes = some record →
      state.holder = some process ∧ state.stored = some record)
    {process : Process} {record : Record} (held : (next.phase process).refreshes = some record) :
    next.holder = some process ∧ next.stored = some record := by
  have other {mover : Process} {phase : Phase}
      (held : (Function.update state.phase mover phase process).refreshes = some record) :
      (process = mover ∧ phase.refreshes = some record) ∨
        process ≠ mover ∧ state.holder = some process ∧ state.stored = some record :=
    (update_cases Phase.refreshes held).imp_right fun rest => ⟨rest.1, locked rest.2⟩
  cases taken with
  | tick | serve => exact locked held
  | send mover sent free idle loaded =>
    rcases other held with ⟨rfl, same⟩ | ⟨-, mine, -⟩
    · exact ⟨rfl, load_eq_ok (Option.some.inj same ▸ loaded)⟩
    · exact nomatch free.symm.trans mine
  | answer mover sent tokens waits =>
    rcases other held with ⟨rfl, same⟩ | ⟨-, rest⟩
    · exact locked (waits ▸ same)
    · exact rest
  | refresh mover old new tokens receivedAt now keys generation synced waits =>
    rcases other held with ⟨-, same⟩ | ⟨apart, mine, -⟩
    · cases same
    · exact absurd (Option.some.inj (mine.symm.trans (locked (by rw [waits]; rfl)).1)) apart
  | begin | exchange | register =>
    rcases other held with ⟨-, same⟩ | ⟨-, rest⟩
    · cases same
    · exact rest
  | logIn mover attempt new latest free =>
    rcases other held with ⟨-, same⟩ | ⟨-, mine, -⟩
    · cases same
    · exact nomatch free.symm.trans mine
  | fail mover =>
    rcases other held with ⟨-, same⟩ | ⟨apart, mine, kept⟩
    · cases same
    · refine ⟨?_, kept⟩
      rw [if_neg fun same => apart (Option.some.inj (mine.symm.trans same))]
      exact mine

theorem append_eq {Item : Type*} {items before after : List Item} {last item : Item}
    (same : items ++ [last] = before ++ item :: after) :
    (after = [] ∧ items = before ∧ last = item) ∨
      ∃ rest, after = rest ++ [last] ∧ items = before ++ item :: rest := by
  rcases List.eq_nil_or_concat after with rfl | ⟨rest, final, rfl⟩
  · obtain ⟨front, back⟩ := List.append_inj' same rfl
    exact .inl ⟨rfl, front, List.singleton_inj.mp back⟩
  · rw [List.concat_eq_append, ← List.cons_append, ← List.append_assoc] at same
    obtain ⟨front, back⟩ := List.append_inj' same rfl
    exact .inr ⟨rest, by rw [List.concat_eq_append, List.singleton_inj.mp back], front⟩

omit [DecidableEq Process] in
theorem Sound.first (idle : ∀ process, state.phase process = .idle) : Sound state.stored [] state := by
  have only {place pair} (found : slot state.stored state.phase place = some pair) :
      place = none := by
    cases place with
    | none => rfl
    | some process =>
      rw [slot, idle] at found
      cases found
  refine ⟨⟨fun {place pair} found => ?_, fun {one other token} left right => ?_⟩,
    fun {process record} held => ?_, fun same => by simp at same, rfl⟩
  · obtain rfl := only found
    obtain ⟨record, held, rfl⟩ := Option.map_eq_some_iff.mp found
    simp [issued, held]
  · obtain ⟨_, mine, -⟩ := Option.map_eq_some_iff.mp left
    obtain ⟨_, yours, -⟩ := Option.map_eq_some_iff.mp right
    rw [only mine, only yours]
  · rw [idle] at held
    cases held

theorem Sound.step (sound : Sound start events state) (taken : Step host state event next)
    (distinct : (tokensOf start (events ++ [event])).Nodup) :
    Sound start (events ++ [event]) next := by
  obtain ⟨apart, gone⟩ := sound.toApart.moves taken.moves distinct
  have more {token : String} (old : token ∈ tokensOf start events) :
      token ∈ tokensOf start (events ++ [event]) := by
    rw [tokensOf, issued_append, List.map_append]
    exact List.mem_append_left _ old
  refine ⟨apart, taken.locked sound.locked, fun {before after process token} same whole => ?_, ?_⟩
  · rcases append_eq same with ⟨rfl, -, rfl⟩ | ⟨rest, rfl, earlier⟩
    · cases taken with
      | send _ record free idle loaded =>
        exact .inl ⟨by simp [Unsaved], rfl, holds_stored (load_eq_ok loaded)⟩
    have unbroken : ¬Broken process rest := fun ⟨early, late, parts, unsaved⟩ =>
      whole ⟨early, late ++ [event], by simp [parts], unsaved⟩
    rcases sound.spent earlier unbroken with ⟨unsaved, mine, held⟩ | ⟨known, nowhere⟩
    · have still (other : event.saved = none) : Unsaved process (rest ++ [event]) := by
        intro old record result member
        rcases List.mem_append.mp member with inside | last
        · exact unsaved _ _ _ inside
        · exact nomatch List.mem_singleton.mp last ▸ other
      cases taken with
      | tick | answer | exchange | register => exact .inl ⟨still rfl, mine, held⟩
      | serve _ _ _ free => exact nomatch free.symm.trans mine
      | send _ _ free => exact nomatch free.symm.trans mine
      | begin _ _ _ _ free => exact nomatch free.symm.trans mine
      | logIn _ _ _ _ free => exact nomatch free.symm.trans mine
      | fail mover =>
        refine .inl ⟨still rfl, ?_, held⟩
        have apart : ¬state.holder = some mover := fun own =>
          whole ⟨rest, [], by rw [Option.some.inj (own.symm.trans mine)], unsaved⟩
        exact (if_neg apart).trans mine
      | refresh mover old record tokens receivedAt now keys generation synced waits fresh =>
        refine .inr ⟨more (sound.mem held), fun place holds => ?_⟩
        have pending : (state.phase mover).pending = some record.pair := by
          rw [waits, Phase.pending, (refreshed_eq_ok fresh).1]
        rcases slot_store pending place with same | none
        · rw [Holds] at holds
          have source := sound.apart (same ▸ holds) held
          rw [Equiv.swap_apply_eq_iff, Equiv.swap_apply_left] at source
          rw [source] at holds
          simp [State.move, slot, Phase.pending] at holds
        · rw [Holds] at holds
          exact nomatch (congrArg (Option.map Prod.snd) none).symm.trans holds
    · exact .inr ⟨more known, fun place holds => (gone token known place holds).elim nowhere⟩
  · have before := sound.subject
    rw [List.filterMap_append]
    cases taken with
    | refresh mover old record tokens receivedAt now keys generation synced waits fresh =>
      have kept := (sound.locked (by rw [waits]; rfl : (state.phase mover).refreshes = some old)).2
      rw [kept, Option.map_some, ← (refreshed_eq_ok fresh).2] at before
      simpa [Event.login] using before
    | logIn => simp [Event.login]
    | _ => simpa [Event.login, State.move] using before

/-! Logins that end while another process saves. -/

/-- The generations of the first record and of every saved one. -/
def generationsOf (start : Option Record) (events : List (Event Process)) : List String :=
  start.toList.map (·.generation) ++ events.filterMap fun event => event.saved.map (·.generation)

omit [DecidableEq Process] in
theorem generationsOf_append (start : Option Record) (events : List (Event Process))
    (event : Event Process) : generationsOf start (events ++ [event]) =
      generationsOf start events ++ (event.saved.map (·.generation)).toList := by
  rw [generationsOf, generationsOf, List.filterMap_append, ← List.append_assoc]
  cases event <;> rfl

theorem Step.stored (taken : Step host state event next) :
    next.stored = event.saved.or state.stored := by
  cases taken <;> rfl

theorem Step.attempt (taken : Step host state event next) {attempt : Attempt}
    (held : (next.phase process).attempt = some attempt) :
    (state.phase process).attempt = some attempt ∨
      event = .began process ∧ state.stored = attempt.selected := by
  cases taken with
  | tick | serve => exact .inl held
  | begin mover nonce hostId selected free idle loaded =>
    rcases update_cases Phase.attempt held with ⟨rfl, same⟩ | ⟨-, rest⟩
    · exact .inr ⟨rfl, (load_eq_ok loaded).trans (congrArg Attempt.selected (Option.some.inj same))⟩
    · exact .inl rest
  | exchange _ _ _ _ waits | register _ _ _ _ _ _ _ _ waits =>
    rcases update_cases Phase.attempt held with ⟨rfl, same⟩ | ⟨-, rest⟩
    · exact .inl (by rw [waits]; exact same)
    · exact .inl rest
  | _ =>
    rcases update_cases Phase.attempt held with ⟨-, same⟩ | ⟨-, rest⟩
    · cases same
    · exact .inl rest

/-- Once a record has been saved, a login that began before selected another generation. -/
structure Current (start : Option Record) (events : List (Event Process)) (state : State Process) :
    Prop where
  stored : ∀ {record}, state.stored = some record → record.generation ∈ generationsOf start events
  chosen : ∀ {process attempt record}, (state.phase process).attempt = some attempt →
    attempt.selected = some record → record.generation ∈ generationsOf start events
  moved : ∀ {process attempt before after}, (state.phase process).attempt = some attempt →
    events = before ++ .began process :: after → .began process ∉ after →
    (∃ event ∈ after, event.saved ≠ none) →
    state.stored.map (·.generation) ≠ attempt.selected.map (·.generation)

omit [DecidableEq Process] in
theorem Current.first (idle : ∀ process, state.phase process = .idle) :
    Current state.stored [] state := by
  refine ⟨fun {record} held => by simp [generationsOf, held], fun {process _ _} held => ?_,
    fun {process _ _ _} held => ?_⟩
  all_goals
    rw [idle process] at held
    cases held

theorem Current.step (current : Current start events state) (taken : Step host state event next)
    (distinct : (generationsOf start (events ++ [event])).Nodup) :
    Current start (events ++ [event]) next := by
  have split := generationsOf_append start events event
  rw [split, List.nodup_append] at distinct
  refine ⟨fun {record} held => ?_, fun {process attempt record} held chosen => ?_,
    fun {process attempt before after} held same single saves => ?_⟩
  · rw [split, List.mem_append]
    rw [taken.stored] at held
    cases saved : event.saved with
    | none => exact .inl (current.stored (by rwa [saved] at held))
    | some new =>
      rw [saved] at held
      exact .inr (by simp [Option.some.inj held])
  · rw [split]
    refine List.mem_append_left _ ?_
    rcases taken.attempt held with old | ⟨-, stored⟩
    · exact current.chosen old chosen
    · exact current.stored (stored.trans chosen)
  · rcases append_eq same with ⟨rfl, -, -⟩ | ⟨rest, rfl, earlier⟩
    · obtain ⟨_, member, -⟩ := saves
      cases member
    rw [List.mem_append, List.mem_singleton, not_or] at single
    have old := (taken.attempt held).resolve_right fun began => single.2 began.1.symm
    rw [taken.stored]
    cases saved : event.saved with
    | none =>
      refine current.moved old earlier single.1 ?_
      obtain ⟨save, member, some⟩ := saves
      rcases List.mem_append.mp member with inside | last
      · exact ⟨save, inside, some⟩
      · exact absurd (List.mem_singleton.mp last ▸ saved) some
    | some new =>
      intro equal
      cases selected : attempt.selected with
      | none =>
        rw [selected] at equal
        cases equal
      | some record =>
        rw [selected] at equal
        refine distinct.2.2 _ (current.chosen old selected) _ ?_ rfl
        rw [saved]
        exact List.mem_singleton.mpr (Option.some.inj equal).symm

/-- A refresh token is sent a second time only after the call that sent it has failed without
a refresh, and a login replaces only the record that it began with. -/
structure Orderly (events : List (Event Process)) : Prop where
  once : ∀ {before between after process other token},
    events = before ++ .sent process token :: (between ++ .sent other token :: after) →
    Broken process between
  undisturbed : ∀ {before between after process record},
    events = before ++ .began process :: (between ++ .loggedIn process record :: after) →
    .began process ∉ between → ∀ event ∈ between, event.saved = none

theorem Orderly.step (orderly : Orderly events) (sound : Sound start events state)
    (current : Current start events state) (taken : Step host state event next) :
    Orderly (events ++ [event]) := by
  constructor
  · intro before between after process other token same
    rw [← List.cons_append, ← List.append_assoc] at same
    rcases append_eq same with ⟨-, earlier, rfl⟩ | ⟨rest, -, earlier⟩
    · by_contra whole
      cases taken with
      | send _ record free idle loaded =>
        rcases sound.spent earlier whole with ⟨-, mine, -⟩ | ⟨-, nowhere⟩
        · exact nomatch free.symm.trans mine
        · exact nowhere none (holds_stored (load_eq_ok loaded))
    · exact orderly.once (by rw [earlier, List.append_assoc, List.cons_append])
  · intro before between after process record same single
    rw [← List.cons_append, ← List.append_assoc] at same
    rcases append_eq same with ⟨-, earlier, rfl⟩ | ⟨rest, -, earlier⟩
    · by_contra saves
      push Not at saves
      cases taken with
      | logIn _ attempt _ latest free waits loaded equal =>
        rw [← load_eq_ok loaded] at equal
        exact current.moved (by rw [waits]; rfl) earlier single saves equal
    · exact orderly.undisturbed (by rw [earlier, List.append_assoc, List.cons_append]) single

/-- Any number of processes refresh and log in to one credential file. While no answer
repeats a refresh token and no record a generation, the file holds the tokens of one answer
and the subject of the last login, and the events are orderly. -/
theorem credential_runs {first : State Process} (idle : ∀ process, first.phase process = .idle)
    (run : Transition.Run (Step host) first events state)
    (tokens : (tokensOf first.stored events).Nodup)
    (generations : (generationsOf first.stored events).Nodup) :
    Orderly events ∧
      (∀ record, state.stored = some record → record.pair ∈ issued first.stored events) ∧
      state.stored.map (·.subject) =
        ((events.filterMap Event.login).getLast?.or first.stored).map (·.subject) := by
  have all : Sound first.stored events state ∧ Current first.stored events state ∧ Orderly events := by
    induction run with
    | start =>
      exact ⟨.first idle, .first idle, fun same => by simp at same, fun same => by simp at same⟩
    | @next _ _ events event earlier taken ih =>
      have older : (issued first.stored events).Sublist (issued first.stored (events ++ [event])) := by
        rw [issued_append]
        exact List.sublist_append_left ..
      have fewer : (generationsOf first.stored events).Sublist
          (generationsOf first.stored (events ++ [event])) := by
        rw [generationsOf_append]
        exact List.sublist_append_left ..
      obtain ⟨sound, current, orderly⟩ :=
        ih (tokens.sublist (older.map _)) (generations.sublist fewer)
      exact ⟨sound.step taken tokens, current.step taken generations,
        orderly.step sound current taken⟩
  refine ⟨all.2.2, fun record held => ?_, all.1.subject⟩
  have found : slot state.stored state.phase none = some record.pair := by
    rw [slot, held, Option.map_some]
  exact all.1.known found

def plainHost : Host Unit where
  uuidVersion _ := some 4
  isWhitespace _ := false
  decode _ _ _ _ := none

def plainRecord : Record where
  version := 1
  generation := "6fa459ea-ee8a-4ca4-894e-db77e160355e"
  issuer := issuerUrl
  subject := "s"
  email := none
  clientId := "c"
  extAgentHostId := "urn:uuid:16fd2706-8baf-433b-82eb-8c7fada847da"
  accessToken := "a0"
  refreshToken := "r0"
  idToken := "i"
  tokenType := "Bearer"
  scopes := ["openid", "offline_access", "resource.invoke", "chatgpt.tokens.use.direct"]
  expiresAt := 10

def plainTokens (accessToken refreshToken : String) : Tokens where
  accessToken := accessToken
  refreshToken := refreshToken
  idToken := none
  tokenType := "Bearer"
  expiresIn := 60
  scope := "openid offline_access resource.invoke chatgpt.tokens.use.direct"

/-- A call that fails after the answer, as when the file cannot be written, loses the new
tokens: the old refresh token is sent again although it has been answered. -/
def resent : List (Event Unit) :=
  let record : Record := { plainRecord with
    generation := "886313e1-3b8a-4372-9b90-0c9aee199e5d"
    accessToken := "a2"
    refreshToken := "r2"
    expiresAt := 70 }
  [.sent () "r0", .answered () (plainTokens "a1" "r1"), .failed (), .sent () "r0",
    .answered () (plainTokens "a2" "r2"), .refreshed () plainRecord record (.ok "a2")]

theorem credential_runs_resent : ∃ first state : State Unit,
    Transition.Run (Step plainHost) first resent state ∧ Orderly resent ∧
      ∃ record, state.stored = some record ∧ record.pair = ("a2", "r2") ∧
        record.pair ∈ issued first.stored resent ∧ record.subject = "s" := by
  have loaded : load plainHost (some plainRecord) = .ok (some plainRecord) := by decide
  let first : State Unit := ⟨10, some plainRecord, none, fun _ => .idle⟩
  have sent := Transition.Run.next (.start first)
    (Step.send first () plainRecord rfl rfl loaded le_rfl)
  have answered := sent.next (Step.answer _ () plainRecord (plainTokens "a1" "r1") rfl)
  have failed := answered.next (Step.fail _ ())
  have again := failed.next (Step.send _ () plainRecord rfl rfl loaded le_rfl)
  have second := again.next (Step.answer _ () plainRecord (plainTokens "a2" "r2") rfl)
  have last := second.next (Step.refresh _ () plainRecord _ (plainTokens "a2" "r2") 10 10 ()
    "886313e1-3b8a-4372-9b90-0c9aee199e5d" true rfl rfl)
  obtain ⟨orderly, known, subject⟩ :=
    credential_runs (fun _ => rfl) last (by decide) (by decide)
  exact ⟨first, _, last, orderly, _, rfl, rfl, known _ rfl, Option.some.inj subject⟩

end ExomonadHarness.Transport.Credentials
