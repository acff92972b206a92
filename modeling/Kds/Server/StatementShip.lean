/-
  Kds.Server.StatementShip

  The wire and the waiter of statement shipping (`src/server/statement_ship_service.cpp`), and
  the error line both ends render through (`ErrorReply` and `StatusFromErrorReply` of
  `src/server/command_dispatcher.cpp`).

  A statement crosses as its text, and what comes back is a status code and a text.  The reply's
  bound treats the two kinds of text differently: a refusal's message is shortened to fit, while
  an answer that does not fit is not sent at all, and the waiter is told that the outcome is
  unknown.  Lines and messages are byte strings; an OK status is `none`.
-/

import Kds.Base.Status
import Kds.Sched.SendRetry
import Mathlib.Logic.Function.Basic

namespace Kds.Server.Shipping

/-- A line, a statement or a message: the bytes of a `std::string`. -/
abbrev Text := List UInt8

def bytesOf (s : String) : Text :=
  s.toUTF8.toList

/-- A `Status` that is not OK, its message as the bytes it holds. -/
structure Refusal where
  code : StatusCode
  message : Text
  deriving DecidableEq

/-- A factory of `Status`, such as `Status::Unsupported`. -/
def refused (code : StatusCode) (message : String) : Refusal :=
  ⟨code, bytesOf message⟩

-- The error line

/-- `kErrorSpellings`. -/
def errorSpellings : List (StatusCode × Text) :=
  [(.txnConflict, bytesOf "TXN_CONFLICT retryable=1 "),
   (.fkViolation, bytesOf "FK_VIOLATION retryable=0 "),
   (.assertionViolation, bytesOf "ASSERTION_VIOLATION retryable=0 "),
   (.unknownOutcome, bytesOf "UNKNOWN_OUTCOME retryable=0 ")]

def errPrefix : Text := bytesOf "ERR "

/-- `ErrorReply`. -/
def errorReply (status : Refusal) : Text :=
  match errorSpellings.find? fun spelling => spelling.1 = status.code with
  | some spelling => errPrefix ++ spelling.2 ++ status.message
  | none => errPrefix ++ status.message

/-- `StatusFromErrorReply`: every line that does not begin with the prefix is a success, and a
    bare error line stands for the codes that have no spelling. -/
def statusFromErrorReply (line : Text) : Option Refusal :=
  if errPrefix.isPrefixOf line then
    let rest := line.drop errPrefix.length
    match errorSpellings.find? fun spelling => spelling.2.isPrefixOf rest with
    | some spelling => some ⟨spelling.1, rest.drop spelling.2.length⟩
    | none => some ⟨.invalidArgument, rest⟩
  else none

-- Status codes on the wire

/-- The numbers of `enum class StatusCode`. -/
def wireCode : Option StatusCode → Nat
  | none => 0
  | some .invalidArgument => 1
  | some .outOfSpace => 2
  | some .notFound => 3
  | some .alreadyExists => 4
  | some .outOfRange => 5
  | some .corruption => 6
  | some .ioError => 7
  | some .txnConflict => 8
  | some .unsupported => 9
  | some .cardinalityViolation => 10
  | some .resourceExhausted => 11
  | some .fkViolation => 12
  | some .assertionViolation => 13
  | some .unknownOutcome => 14

/-- `Status::FromWire`: a number outside the enumeration is an I/O error. -/
def fromWire (code : Nat) (message : Text) : Option Refusal :=
  match code with
  | 0 => none
  | 1 => some ⟨.invalidArgument, message⟩
  | 2 => some ⟨.outOfSpace, message⟩
  | 3 => some ⟨.notFound, message⟩
  | 4 => some ⟨.alreadyExists, message⟩
  | 5 => some ⟨.outOfRange, message⟩
  | 6 => some ⟨.corruption, message⟩
  | 7 => some ⟨.ioError, message⟩
  | 8 => some ⟨.txnConflict, message⟩
  | 9 => some ⟨.unsupported, message⟩
  | 10 => some ⟨.cardinalityViolation, message⟩
  | 11 => some ⟨.resourceExhausted, message⟩
  | 12 => some ⟨.fkViolation, message⟩
  | 13 => some ⟨.assertionViolation, message⟩
  | 14 => some ⟨.unknownOutcome, message⟩
  | _ => some ⟨.ioError, message⟩

theorem fromWire_wireCode (code : Option StatusCode) (message : Text) :
    fromWire (wireCode code) message = code.map fun c => ⟨c, message⟩ := by
  rcases code with - | code
  · rfl
  · cases code <;> rfl

-- The request

/-- `kShippedStatementTextMax`: a ring slot less the fixed fields. -/
def statementTextMax : Nat := Sched.coreRingPayloadBytes - 32

/-- `kShippedStatementReplyTextMax`. -/
def replyTextMax : Nat := Sched.coreRingPayloadBytes - 32

inductive Role where
  | readOnly | readWrite | admin
  deriving DecidableEq

def Role.toByte : Role → Nat
  | .readOnly => 0
  | .readWrite => 1
  | .admin => 2

/-- `ShippedStatementRequestPayload`; the text's array is zero past `textLen`. -/
structure RequestPayload where
  sessionId : Nat
  sequence : Nat
  targetOid : Nat
  textLen : Nat
  role : Nat
  text : Text
  deriving DecidableEq

/-- A payload's text array. -/
def padTo (size : Nat) (text : Text) : Text :=
  text ++ List.replicate (size - text.length) 0

theorem take_padTo (size : Nat) (text : Text) : (padTo size text).take text.length = text := by
  rw [padTo, List.take_left]

/-- `ShippedStatementRequestOf`: a statement that does not fit is refused, never truncated. -/
def requestOf (sessionId sequence targetOid : Nat) (role : Role) (text : Text) :
    Except Refusal RequestPayload :=
  if text = [] then
    .error (refused .invalidArgument
      "statement shipping: an empty statement is not a statement")
  else if statementTextMax < text.length then
    .error (refused .unsupported
      ("statement shipping: the statement is " ++ toString text.length ++
        " bytes and a shipped statement carries at most " ++ toString statementTextMax ++
        "; run it on the core that owns the relation, or raise the ring payload " ++
        "(docs/spec/crosscore.md §9's sizing decision)"))
  else
    .ok { sessionId := sessionId, sequence := sequence, targetOid := targetOid,
          textLen := text.length, role := role.toByte, text := padTo statementTextMax text }

/-- `ShippedStatementTextOf`. -/
def statementTextOf (request : RequestPayload) : Except Refusal Text :=
  if request.textLen = 0 ∨ statementTextMax < request.textLen then
    .error (refused .invalidArgument
      ("statement shipping: request names a statement of " ++ toString request.textLen ++
        " bytes, which is not a length this payload can hold"))
  else .ok (request.text.take request.textLen)

/-- `ShippedStatementRoleOf`. -/
def roleOf (request : RequestPayload) : Except Refusal Role :=
  match request.role with
  | 0 => .ok .readOnly
  | 1 => .ok .readWrite
  | 2 => .ok .admin
  | other =>
    .error (refused .invalidArgument
      ("statement shipping: request names role " ++ toString other ++
        ", which is not a role this build knows"))

theorem requestOf_ok {sessionId sequence targetOid : Nat} {role : Role} {text : Text}
    {request : RequestPayload} (h : requestOf sessionId sequence targetOid role text =
      .ok request) :
    request.sessionId = sessionId ∧ request.sequence = sequence ∧
      statementTextOf request = .ok text ∧ roleOf request = .ok role := by
  rw [requestOf] at h
  split_ifs at h with hempty hlong
  cases h
  have hlen : text.length ≠ 0 := fun h0 => hempty (List.length_eq_zero_iff.mp h0)
  refine ⟨rfl, rfl, ?_, ?_⟩
  · rw [statementTextOf, if_neg (by rintro (h0 | hover); exacts [hlen h0, hlong hover])]
    exact congrArg Except.ok (take_padTo _ text)
  · cases role <;> rfl

-- The reply

/-- `ShippedStatementReplyPayload`. -/
structure ReplyPayload where
  sessionId : Nat
  sequence : Nat
  statusCode : Nat
  textLen : Nat
  text : Text
  deriving DecidableEq

/-- A byte that continues a UTF-8 sequence. -/
def isContinuation (byte : UInt8) : Bool :=
  byte &&& 0xC0 == 0x80

/-- The step back of `Utf8PrefixLen`, from the first dropped byte. -/
def stepBack (text : Text) : Nat → Nat
  | 0 => 0
  | len + 1 => if isContinuation (text.getD (len + 1) 0) then stepBack text len else len + 1

/-- `Utf8PrefixLen`. -/
def utf8PrefixLen (text : Text) (cap : Nat) : Nat :=
  if text.length ≤ cap then text.length else stepBack text cap

/-- `OverLongReply`. -/
def overLongReply (bytes : Nat) : Refusal :=
  refused .unknownOutcome
    ("statement shipping: the statement executed on its owner but its reply is " ++
      toString bytes ++ " bytes, past the " ++ toString replyTextMax ++
      " a reply carries; the statement's effect stands and its answer is lost")

/-- `ShippedStatementReplyOf`: a message is shortened, an answer refused. -/
def replyOf (sessionId sequence : Nat) (status : Option Refusal) (text : Text) :
    Except Refusal ReplyPayload :=
  match status with
  | some refusal =>
    let len := utf8PrefixLen refusal.message replyTextMax
    .ok { sessionId := sessionId, sequence := sequence, statusCode := wireCode (some refusal.code)
          textLen := len, text := padTo replyTextMax (refusal.message.take len) }
  | none =>
    if replyTextMax < text.length then .error (overLongReply text.length)
    else .ok { sessionId := sessionId, sequence := sequence, statusCode := wireCode none
               textLen := text.length, text := padTo replyTextMax text }

/-- The pair `StatementShipServer::Reply` decides before it encodes. -/
def answerOf (status : Option Refusal) (text : Text) : Option Refusal × Text :=
  match status with
  | some refusal => (some refusal, text)
  | none => if replyTextMax < text.length then (some (overLongReply text.length), [])
            else (none, text)

/-- `StatementShipServer::Reply`, the payload it sends; `none` where the encode refuses, which is
    never (`reply_of_refusal`, `reply_of_answer`). -/
def reply (sessionId sequence : Nat) (status : Option Refusal) (text : Text) :
    Option ReplyPayload :=
  match replyOf sessionId sequence (answerOf status text).1 (answerOf status text).2 with
  | .ok payload => some payload
  | .error _ => none

theorem reply_of_refusal {status : Option Refusal} {text rest : Text} {refusal : Refusal}
    (sessionId sequence : Nat) (h : answerOf status text = (some refusal, rest)) :
    reply sessionId sequence status text =
      some { sessionId := sessionId, sequence := sequence
             statusCode := wireCode (some refusal.code)
             textLen := utf8PrefixLen refusal.message replyTextMax
             text := padTo replyTextMax
               (refusal.message.take (utf8PrefixLen refusal.message replyTextMax)) } := by
  simp only [reply, h, replyOf]

theorem reply_of_answer {text : Text} (sessionId sequence : Nat)
    (h : ¬ replyTextMax < text.length) :
    reply sessionId sequence none text =
      some { sessionId := sessionId, sequence := sequence, statusCode := wireCode none
             textLen := text.length, text := padTo replyTextMax text } := by
  have hanswer : answerOf none text = (none, text) := if_neg h
  simp only [reply, hanswer, replyOf, h, if_false]

theorem stepBack_le (text : Text) (cap : Nat) : stepBack text cap ≤ cap := by
  induction cap with
  | zero => exact Nat.le_refl 0
  | succ len ih =>
    rw [stepBack]
    split
    · omega
    · exact Nat.le_refl _

theorem utf8PrefixLen_le (text : Text) (cap : Nat) :
    utf8PrefixLen text cap ≤ cap ∧ utf8PrefixLen text cap ≤ text.length := by
  have hback := stepBack_le text cap
  rw [utf8PrefixLen]
  split
  · next hfits => exact ⟨hfits, Nat.le_refl _⟩
  · next hlong => omega

-- The waiter

/-- `kShippedStatementDeadlineNs`. -/
def deadlineNs : Nat := 10 * 1000000000

/-- `ShippedStatementOutcome`. -/
structure Waiter where
  arrived : Bool := false
  status : Option Refusal := none
  text : Text := []
  sessionId : Nat
  sequence : Nat
  deadline : Nat
  sentNs : Nat
  deriving DecidableEq

/-- `waiting_`, by request id. -/
abbrev Waiting := Nat → Option Waiter

/-- `StatementShipClient::Ship`: a refusal opens no waiter and sends nothing. -/
def ship (coreCount now : Nat) (waiting : Waiting) (ownerCore requestId sessionId sequence
    targetOid : Nat) (role : Role) (text : Text) : Except Refusal (Waiting × RequestPayload) :=
  if (waiting requestId).isSome then
    .error (refused .invalidArgument
      ("statement shipping: request id " ++ toString requestId ++
        " already has a statement parked on it; ids are allocated per core and per statement"))
  else if coreCount ≤ ownerCore then
    .error (refused .invalidArgument
      ("statement shipping: core " ++ toString ownerCore ++
        " is not a core of this instance, which has " ++ toString coreCount))
  else
    match requestOf sessionId sequence targetOid role text with
    | .error refusal => .error refusal
    | .ok request =>
      .ok (Function.update waiting requestId
        (some { sessionId := sessionId, sequence := sequence, deadline := now + deadlineNs,
                sentNs := now }), request)

/-- What a reply tells the waiter whose identity it names. -/
def Waiter.arrive (waiter : Waiter) (payload : ReplyPayload) : Waiter :=
  if replyTextMax < payload.textLen then
    { waiter with
      arrived := true, text := []
      status := some (refused .unknownOutcome
        ("statement shipping: the owner's reply names a text of " ++ toString payload.textLen ++
          " bytes, which is not a length a reply can hold; the statement may have run and its " ++
          "answer cannot be read")) }
  else
    let text := payload.text.take payload.textLen
    let status := fromWire payload.statusCode text
    { waiter with
      arrived := true, status := status, text := if status.isSome then [] else text }

/-- The handler of `RegisterReplyReceiver`: a reply that meets no waiter, or one whose identity it
    does not name, is dropped. -/
def receive (waiting : Waiting) (requestId : Nat) (payload : ReplyPayload) : Waiting :=
  match waiting requestId with
  | none => waiting
  | some waiter =>
    if payload.sessionId ≠ waiter.sessionId ∨ payload.sequence ≠ waiter.sequence then waiting
    else Function.update waiting requestId (some (waiter.arrive payload))

/-- `StatementShipClient::Settled`. -/
def settled (now : Nat) (waiting : Waiting) (requestId : Nat) : Bool :=
  match waiting requestId with
  | none => true
  | some waiter => waiter.arrived || decide (waiter.deadline ≤ now)

/-- `FinishShippedStatement`: the status behind the line the client is handed, and the line. -/
def finishShipped (waiting : Waiting) (requestId ownerCore : Nat) (relation : String) :
    (Option Refusal × Text) × Waiting :=
  let unanswered : Option Refusal × Text :=
    let refusal := refused .unknownOutcome
      ("core " ++ toString ownerCore ++ " did not answer for '" ++ relation ++ "' within " ++
        toString (deadlineNs / 1000000000) ++
        " s; whether the statement ran cannot be established - read the data back rather than " ++
        "retrying")
    (some refusal, errorReply refusal)
  let told :=
    match waiting requestId with
    | none => unanswered
    | some waiter =>
      if !waiter.arrived then unanswered
      else match waiter.status with
        | none => (none, waiter.text)
        | some refusal => (some refusal, errorReply refusal)
  (told, Function.update waiting requestId none)

end Kds.Server.Shipping
