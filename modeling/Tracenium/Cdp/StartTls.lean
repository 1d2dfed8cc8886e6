-- SUMMARY: What is said in the clear before a TLS handshake, and for which servers and data events it ends as they answered.
import Tracenium.Ipc.Wire
import Mathlib.Data.Nat.Bitwise

/-!
`src/plugins/cdp/starttls.ts`. The client reads until what has come looks like a whole reply, which it asks after every
data event.
-/

open Utf16 List Nat UInt8

namespace Cdp.StartTls

abbrev Bytes := List UInt8

def ascii (s : String) : Bytes := s.toList.map fun c => ofNat c.toNat

/-- `toString("latin1")`. -/
def latin1 (b : Bytes) : Str := b.map UInt8.toUInt16

def cr : UInt8 := 0x0D
def lf : UInt8 := 0x0A
def space : UInt8 := 0x20
def dash : UInt8 := 0x2D

/-! ## Texts -/

def isSpace (b : UInt8) : Bool := Ipc.isSpace b.toUInt16

def isDigit (b : UInt8) : Bool := 0x30 ≤ b && b ≤ 0x39

def trim (s : Bytes) : Bytes := (s.dropWhile isSpace).rdropWhile isSpace

def upper (b : UInt8) : UInt8 := if 0x61 ≤ b && b ≤ 0x7A then b - 0x20 else b

/-- `/^…/i` with a constant in capitals. -/
def startsWithI (constant s : Bytes) : Bool := constant.isPrefixOf (s.map upper)

/-- What follows the line terminators. -/
def afterBreaks : Bytes → List Bytes
  | [] => []
  | b :: s => if b = cr ∨ b = lf then s :: afterBreaks s else afterBreaks s

/-- `/^…/m`. -/
def atLine (test : Bytes → Bool) (s : Bytes) : Bool := (s :: afterBreaks s).any test

/-! ## The socket -/

/-- What ends the wait for data. -/
inductive Ending
  | timeout | closed | error (code : Str)

def Ending.reason : Ending → Str
  | .timeout => text "preamble_timeout"
  | .closed => text "closed_during_preamble"
  | .error code => code

/-- What the client sent, and what of the replies to what it had sent before had not come. -/
structure Write where
  (data pending : Bytes)
  deriving DecidableEq

/-- The data events to come, those of the replies to what the client will send, and what it sent. -/
structure Socket where
  events : List Bytes
  replies : List (List Bytes)
  ending : Ending
  writes : List Write

/-- How the preamble ends, and what it sent. -/
abbrev Result := Except Str Unit × List Write

def maxResponse : Nat := 65536

/-- `onData`, event by event. -/
def receive (done : Bytes → Bool) (ending : Ending) : Bytes → List Bytes → Except Str (Bytes × List Bytes)
  | _, [] => .error ending.reason
  | buf, d :: events =>
    let buf := buf ++ d
    if buf.length > maxResponse then .error (text "response_too_large")
    else if done buf then .ok (buf, events)
    else receive done ending buf events

namespace Socket

def write (s : Socket) (data : Bytes) : Socket :=
  { s with
    events := s.events ++ s.replies.headD []
    replies := s.replies.tail
    writes := s.writes ++ [⟨data, s.events.flatten⟩] }

def fail (s : Socket) (reason : Str) : Result := (.error reason, s.writes)

def ready (s : Socket) : Result := (.ok (), s.writes)

def readUntil (s : Socket) (done : Bytes → Bool) (next : Bytes → Socket → Result) : Result :=
  match receive done s.ending [] s.events with
  | .error reason => s.fail reason
  | .ok (buf, events) => next buf { s with events }

end Socket

/-! ## The preambles -/

def lineDone (buf : Bytes) : Bool := buf.contains lf

/-- `/^\d{3}(\s|$)/`. -/
def isLastLine : Bytes → Bool
  | a :: b :: c :: rest => isDigit a && isDigit b && isDigit c && rest.head?.all isSpace
  | _ => false

/-- What `split(/\r?\n/)` has last is what follows the last line feed. -/
def smtpDone (buf : Bytes) : Bool :=
  ([cr, lf].isSuffixOf buf || [lf].isSuffixOf buf) && isLastLine ((trim buf).rtakeWhile (· != lf))

def offersStartTls (ehlo : Bytes) : Bool :=
  atLine (fun s => startsWithI (ascii "250-STARTTLS") s || startsWithI (ascii "250 STARTTLS") s) ehlo

def smtp (s : Socket) : Result :=
  s.readUntil smtpDone fun greet s =>
    if !(ascii "220").isPrefixOf greet then s.fail (text "smtp_greeting_" ++ latin1 (greet.take 3))
    else (s.write (ascii "EHLO tracenium.probe\r\n")).readUntil smtpDone fun ehlo s =>
      if !(ascii "250").isPrefixOf ehlo then s.fail (text "smtp_ehlo_" ++ latin1 (ehlo.take 3))
      else if !offersStartTls ehlo then s.fail (text "not_offered")
      else (s.write (ascii "STARTTLS\r\n")).readUntil smtpDone fun go s =>
        if !(ascii "220").isPrefixOf go then s.fail (text "smtp_starttls_" ++ latin1 (go.take 3)) else s.ready

def imapDone (buf : Bytes) : Bool := atLine ((ascii "a1 ").isPrefixOf ·) buf && buf.contains lf

def imap (s : Socket) : Result :=
  s.readUntil lineDone fun greet s =>
    if !(startsWithI (ascii "* OK") greet || startsWithI (ascii "* PREAUTH") greet) then s.fail (text "imap_greeting")
    else (s.write (ascii "a1 STARTTLS\r\n")).readUntil imapDone fun resp s =>
      if atLine (startsWithI (ascii "A1 OK")) resp then s.ready
      else if atLine (fun l => startsWithI (ascii "A1 NO") l || startsWithI (ascii "A1 BAD") l) resp then
        s.fail (text "not_offered")
      else s.fail (text "imap_starttls")

def pop3 (s : Socket) : Result :=
  s.readUntil lineDone fun greet s =>
    if !(ascii "+OK").isPrefixOf greet then s.fail (text "pop3_greeting")
    else (s.write (ascii "STLS\r\n")).readUntil lineDone fun resp s =>
      if (ascii "+OK").isPrefixOf resp then s.ready
      else if (ascii "-ERR").isPrefixOf resp then s.fail (text "not_offered")
      else s.fail (text "pop3_stls")

def LDAP_STARTTLS_REQUEST : Bytes :=
  [0x30, 0x1d, 0x02, 0x01, 0x01, 0x77, 0x18, 0x80, 0x16] ++ ascii "1.3.6.1.4.1.1466.20037"

def ldapDone (b : Bytes) : Bool :=
  let length := b.getD 1 0
  2 ≤ b.length && (2 + if length < 0x80 then length.toNat else 0) ≤ b.length

/-- `${code}`, of an octet that may not be there. -/
def showOctet : Option UInt8 → Str
  | none => text "undefined"
  | some b => Json.decimal b.toNat

def ldap (s : Socket) : Result :=
  (s.write LDAP_STARTTLS_REQUEST).readUntil ldapDone fun resp s =>
    match resp.idxOf? 0x78 with
    | none => s.fail (text "ldap_response")
    | some i =>
      if resp[i + 2]? ≠ some 0x0a then s.fail (text "ldap_response")
      else
        let code := resp[i + 4]?
        if code = some 0 then s.ready
        else if code = some 2 ∨ code = some 53 then s.fail (text "not_offered")
        else s.fail (text "ldap_result_" ++ showOctet code)

def PG_SSL_REQUEST : Bytes := [0x00, 0x00, 0x00, 0x08, 0x04, 0xd2, 0x16, 0x2f]

def pgDone (b : Bytes) : Bool := 1 ≤ b.length

def postgres (s : Socket) : Result :=
  (s.write PG_SSL_REQUEST).readUntil pgDone fun resp s =>
    let c := resp.headD 0
    if c = 0x53 then s.ready
    else if c = 0x4E then s.fail (text "not_offered")
    else s.fail (text "postgres_" ++ Json.decimal c.toNat)

/-- The first `n` bytes of `b`, little-endian, as the shifts put them together. -/
def length24 (b : Bytes) : Nat :=
  (b.getD 0 0).toNat ||| (b.getD 1 0).toNat <<< 8 ||| (b.getD 2 0).toNat <<< 16

def MYSQL_CLIENT_SSL : Nat := 0x0800

/-- The header, the capabilities, the largest packet and the character set. -/
def mysqlSslRequestPacket : Bytes :=
  [32, 0, 0, 1] ++ [0x00, 0x8A, 0, 0] ++ [0, 0, 0, 1] ++ [0x21] ++ replicate 23 0

def mysqlServerOffersSsl (packet : Bytes) : Option Bool :=
  if packet.length < 5 then none
  else
    let len := length24 packet
    let p := (packet.drop 4).take len
    if p.length < len ∨ p.head? ≠ some 10 then none
    else
      match (p.drop 1).idxOf? 0 with
      | none => none
      | some i =>
        let off := (i + 1) + 1 + 4 + 8 + 1
        if p.length < off + 2 then none
        else some (((p.getD off 0).toNat + 256 * (p.getD (off + 1) 0).toNat) &&& MYSQL_CLIENT_SSL != 0)

def mysqlDone (b : Bytes) : Bool := 4 ≤ b.length && 4 + length24 b ≤ b.length

def mysql (s : Socket) : Result :=
  s.readUntil mysqlDone fun hs s =>
    match mysqlServerOffersSsl hs with
    | none => s.fail (text "mysql_handshake")
    | some false => s.fail (text "not_offered")
    | some true => (s.write mysqlSslRequestPacket).ready

/-! ## Conversations -/

inductive Verdict
  | accepted | declined | failed
  deriving DecidableEq

def clean (t : Bytes) : Bool := t.all fun u => u != cr && u != lf

/-- What a line may hold. -/
abbrev Text := { t : Bytes // clean t = true }

def line (t : Bytes) : Bytes := t ++ [cr, lf]

/-- A word whose letters may be capitals or not. -/
abbrev Word (capitals : Bytes) := { w : Bytes // w.map upper = capitals }

/-- A reply of one or more lines. The last line may end with the code. -/
structure SmtpReply where
  (a b c : UInt8)
  digits : isDigit a ∧ isDigit b ∧ isDigit c
  before : List Text
  last : Option Text

namespace SmtpReply

def code (r : SmtpReply) : Bytes := [r.a, r.b, r.c]

/-- Lines of the reply before the last one. -/
def dashed (r : SmtpReply) (ts : List Text) : Bytes := ts.flatMap fun t => line (r.code ++ dash :: t.1)

/-- What follows the code in the last line. -/
def tail (r : SmtpReply) : Bytes := r.last.elim [] fun t => space :: t.1

def bytes (r : SmtpReply) : Bytes := r.dashed r.before ++ line (r.code ++ r.tail)

def texts (r : SmtpReply) : List Bytes := r.before.map Subtype.val ++ (r.last.map Subtype.val).toList

/-- The lines after the first are the extensions of the server. -/
def Offers (r : SmtpReply) : Prop :=
  ∃ t ∈ r.texts.tail, (t.takeWhile (· != space)).map upper = ascii "STARTTLS"

instance (r : SmtpReply) : Decidable r.Offers := inferInstanceAs (Decidable (∃ t ∈ _, _))

end SmtpReply

inductive ImapGreeting
  | ok | preauth | bye
  deriving DecidableEq

def ImapGreeting.capitals : ImapGreeting → Bytes
  | ok => ascii "OK"
  | preauth => ascii "PREAUTH"
  | bye => ascii "BYE"

inductive ImapStatus
  | ok | no | bad
  deriving DecidableEq

def ImapStatus.capitals : ImapStatus → Bytes
  | ok => ascii "OK"
  | no => ascii "NO"
  | bad => ascii "BAD"

/-- A greeting, lines without a tag, and the line with the tag of the client. -/
structure ImapServer where
  greeting : ImapGreeting
  greetingWord : Word greeting.capitals
  hello : Text
  untagged : List Text
  status : ImapStatus
  statusWord : Word status.capitals
  rest : Text

def untaggedLines (untagged : List Text) : Bytes := untagged.flatMap fun t => line (ascii "* " ++ t.1)

/-- The octets of a definite length, in the short form or in the long one. -/
def IsLength (octets : Bytes) (n : Nat) : Prop :=
  n < 0x80 ∧ octets = [ofNat n] ∨ ∃ l, l ≠ [] ∧ l.length < 0x7F ∧ octets = ofNat (0x80 + l.length) :: l ∧
      l.foldl (fun n b => n * 256 + b.toNat) 0 = n

/-- An `ExtendedResponse` to the first message, with what comes after the result code and after the response. -/
structure LdapContent where
  (idLength responseLength codeLength code fields controls : Bytes)
  nonempty : code ≠ []
  code_eq : IsLength codeLength code.length
  response_eq : IsLength responseLength ([0x0a] ++ codeLength ++ code ++ fields).length
  id_eq : IsLength idLength 1

def LdapContent.bytes (r : LdapContent) : Bytes :=
  [0x02] ++ r.idLength ++ [0x01, 0x78] ++ r.responseLength ++ [0x0a] ++ r.codeLength ++ r.code ++ r.fields ++ r.controls

structure LdapResponse extends LdapContent where
  messageLength : Bytes
  message_eq : IsLength messageLength toLdapContent.bytes.length

def LdapResponse.bytes (r : LdapResponse) : Bytes := 0x30 :: (r.messageLength ++ r.toLdapContent.bytes)

inductive PgAnswer
  | willing | unwilling | error (message : Bytes)

def PgAnswer.bytes : PgAnswer → Bytes
  | .willing => [0x53]
  | .unwilling => [0x4E]
  | .error message => 0x45 :: message

/-- A greeting of protocol 10, and what begins with another byte: an error, or a protocol without TLS. -/
inductive MysqlPayload
  | greeting (version : Bytes) (ended : 0 ∉ version) (connection scramble : Bytes) (filler low high : UInt8)
      (rest : Bytes) (sizes : connection.length = 4 ∧ scramble.length = 8)
  | other (first : UInt8) (rest : Bytes) (other : first ≠ 10)

def MysqlPayload.bytes : MysqlPayload → Bytes
  | .greeting version _ connection scramble filler low high rest _ =>
    10 :: (version ++ 0 :: (connection ++ scramble ++ filler :: low :: high :: rest))
  | .other first rest _ => first :: rest

structure MysqlPacket where
  (a b c sequence : UInt8)
  payload : MysqlPayload
  length_eq : a.toNat + 256 * b.toNat + 65536 * c.toNat = payload.bytes.length
  fits : 4 + payload.bytes.length ≤ maxResponse

def MysqlPacket.bytes (m : MysqlPacket) : Bytes := [m.a, m.b, m.c, m.sequence] ++ m.payload.bytes

/-- A line of at most 512 bytes, and whether it begins with `+OK` or with `-ERR`. -/
structure Pop3Reply where
  ok : Bool
  text : Text
  short : text.1.length ≤ 506

def Pop3Reply.bytes (r : Pop3Reply) : Bytes := line ((if r.ok then ascii "+OK" else ascii "-ERR") ++ r.text.1)

/-- What the server answers, in the protocol that it speaks. -/
inductive Conversation
  | smtp (greet ehlo go : SmtpReply)
  | imap (server : ImapServer)
  | pop3 (greet resp : Pop3Reply)
  | ldap (resp : LdapResponse)
  | postgres (answer : PgAnswer)
  | mysql (greet : MysqlPacket)

namespace ImapServer

def greet (i : ImapServer) : Bytes := line (ascii "* " ++ i.greetingWord.1 ++ space :: i.hello.1)

/-- The tagged line up to the end of its status. -/
def tagged (i : ImapServer) : Bytes := ascii "a1 " ++ i.statusWord.1

def resp (i : ImapServer) : Bytes := untaggedLines i.untagged ++ line (i.tagged ++ space :: i.rest.1)

end ImapServer

namespace Conversation

def replies : Conversation → List Bytes
  | smtp greet ehlo go => [greet.bytes, ehlo.bytes, go.bytes]
  | imap i => [i.greet, i.resp]
  | pop3 greet resp => [greet.bytes, resp.bytes]
  | ldap resp => [resp.bytes]
  | postgres answer => [answer.bytes]
  | mysql greet => [greet.bytes]

/-- Whether the server speaks before it is asked. -/
def greets : Conversation → Bool
  | ldap _ | postgres _ => false
  | _ => true

def preamble : Conversation → Socket → Result
  | smtp .. => StartTls.smtp
  | imap _ => StartTls.imap
  | pop3 .. => StartTls.pop3
  | ldap _ => StartTls.ldap
  | postgres _ => StartTls.postgres
  | mysql _ => StartTls.mysql

/-- Whether the server offered and accepted the upgrade, declined it, or refused to go on. -/
def verdict : Conversation → Verdict
  | smtp greet ehlo go =>
    if greet.code ≠ ascii "220" ∨ ehlo.code ≠ ascii "250" then .failed
    else if ¬ehlo.Offers then .declined
    else if go.code = ascii "220" then .accepted else .failed
  | imap i => if i.greeting = .bye then .failed else if i.status = .ok then .accepted else .declined
  | pop3 greet resp => if !greet.ok then .failed else if resp.ok then .accepted else .declined
  | ldap resp =>
    if resp.code = [0] then .accepted else if resp.code = [2] ∨ resp.code = [53] then .declined else .failed
  | postgres .willing => .accepted
  | postgres .unwilling => .declined
  | postgres (.error _) => .failed
  | mysql greet =>
    match greet.payload with
    | .greeting _ _ _ _ _ low high _ _ => if (low.toNat + 256 * high.toNat).testBit 11 then .accepted else .declined
    | .other .. => .failed

end Conversation

/-- A conversation and the data events in which its replies come. -/
structure Dialogue where
  conversation : Conversation
  events : List (List Bytes)
  ending : Ending
  whole : events.map flatten = conversation.replies

namespace Dialogue

variable (d : Dialogue)

def socket : Socket :=
  if d.conversation.greets then ⟨d.events.headD [], d.events.tail, d.ending, []⟩ else ⟨[], d.events, d.ending, []⟩

def result : Result := d.conversation.preamble d.socket

end Dialogue

/-- The preamble ends as the server answered, and sent nothing before the reply to what it had sent. -/
structure Judges (r : Result) (v : Verdict) : Prop where
  succeeds : r.1 = .ok () ↔ v = .accepted
  declines : r.1 = .error (text "not_offered") ↔ v = .declined
  waits : ∀ w ∈ r.2, w.pending = []

/-- What had come at the first data event after which the reply looks whole. -/
def firstDone (done : Bytes → Bool) (events : List Bytes) : Option Bytes :=
  (events.scanl (· ++ ·) []).find? done

/-- What stands two octets after the first octet 0x78 is the tag of a result code, and four after it this code. -/
def Points (got : Bytes) (code : UInt8) : Prop :=
  ∃ i, got.idxOf? 0x78 = some i ∧ got[i + 2]? = some 0x0a ∧ got[i + 4]? = some code

/-- What the octets say when the message looks whole. -/
def Says (events : List Bytes) (code : UInt8) : Prop :=
  ∃ got, firstDone ldapDone events = some got ∧ got.length ≤ maxResponse ∧ Points got code

/-- No reply is too large, no extension or name of an SMTP server begins like `STARTTLS` unless it offers that, the
tagged IMAP response does not look whole before its status is, and the LDAP message has its result code where the
client looks for it. -/
def Dialogue.Legible (d : Dialogue) : Prop :=
  match d.conversation with
  | .smtp greet ehlo go =>
    d.conversation.verdict = .failed ∨ greet.bytes.length ≤ maxResponse ∧ ehlo.bytes.length ≤ maxResponse ∧
      if ehlo.Offers then go.bytes.length ≤ maxResponse else ∀ t ∈ ehlo.texts, ¬startsWithI (ascii "STARTTLS") t
  | .imap i =>
    i.greeting = .bye ∨ i.greet.length ≤ maxResponse ∧
      ∃ got, firstDone imapDone (d.events.getD 1 []) = some got ∧ got.length ≤ maxResponse ∧
        untaggedLines i.untagged ++ i.tagged <+: got
  | .ldap resp =>
    let events := d.events.headD []
    (resp.code = [0] ↔ Says events 0) ∧ (resp.code = [2] ∨ resp.code = [53] ↔ Says events 2 ∨ Says events 53)
  | .pop3 .. | .postgres .. | .mysql .. => True

/-! ## Reading -/

section Reading

variable {done : Bytes → Bool} {events : List Bytes} {buf got whole : Bytes} {ending : Ending}

theorem prefix_of_mem_scanl (h : got ∈ events.scanl (· ++ ·) buf) : buf <+: got := by
  induction events generalizing buf with
  | nil => exact (mem_singleton.mp h) ▸ prefix_rfl
  | cons d events ih =>
    rcases mem_cons.mp (scanl_cons ▸ h) with rfl | h
    · exact prefix_rfl
    · exact (prefix_append buf d).trans (ih h)

/-- A reply is read up to the first data event after which it looks whole. -/
theorem exists_receive (hbuf : done buf = false) (h : (events.scanl (· ++ ·) buf).find? done = some got) :
    got.length ≤ maxResponse ∧ (∃ rest, got ++ rest.flatten = buf ++ events.flatten ∧
        receive done ending buf events = .ok (got, rest)) ∨
      maxResponse < got.length ∧ receive done ending buf events = .error (text "response_too_large") := by
  induction events generalizing buf with
  | nil => simp [scanl_nil, hbuf] at h
  | cons d events ih =>
    rw [scanl_cons, find?_cons_of_neg (by simp [hbuf])] at h
    have hlen : (buf ++ d).length ≤ got.length := (prefix_of_mem_scanl (mem_of_find?_eq_some h)).length_le
    simp only [receive]
    split
    · exact .inr ⟨by omega, rfl⟩
    · split
      · rename_i hdone
        have hgot : buf ++ d = got := by
          cases events <;> simpa [scanl_cons, scanl_nil, hdone] using h
        rw [← hgot]
        exact .inl ⟨Nat.le_of_not_lt ‹_›, events, by simp, rfl⟩
      · rename_i hdone
        simpa using ih (by simpa using hdone) h

/-- A reply that looks whole only when it is. -/
theorem find?_scanl_of_whole (hdone : done whole)
    (hnot : ∀ p, p <+: whole → done p → p = whole) (h : buf ++ events.flatten = whole) :
    (events.scanl (· ++ ·) buf).find? done = some whole := by
  induction events generalizing buf with
  | nil =>
    rw [flatten_nil, append_nil] at h
    simp [scanl_nil, h, hdone]
  | cons d events ih =>
    rw [scanl_cons]
    cases hbuf : done buf with
    | true =>
      have hwhole := hnot buf ⟨_, h⟩ hbuf
      rw [find?_cons_of_pos hbuf, hwhole]
    | false =>
      rw [find?_cons_of_neg (by simp [hbuf])]
      exact ih (by simpa using h)

theorem exists_find?_scanl (hdone : done whole) (h : buf ++ events.flatten = whole) :
    ∃ got, (events.scanl (· ++ ·) buf).find? done = some got ∧ done got ∧ got <+: whole := by
  induction events generalizing buf with
  | nil =>
    rw [flatten_nil, append_nil] at h
    exact ⟨whole, by simp [scanl_nil, h, hdone], hdone, prefix_rfl⟩
  | cons d events ih =>
    rw [scanl_cons]
    cases hbuf : done buf with
    | true => exact ⟨buf, find?_cons_of_pos hbuf, hbuf, ⟨_, h⟩⟩
    | false =>
      rw [find?_cons_of_neg (by simp [hbuf])]
      exact ih (by simpa using h)

/-- A reply that looks whole does so after some data event. -/
theorem exists_firstDone (hdone : done whole) (h : events.flatten = whole) :
    ∃ got, firstDone done events = some got ∧ done got ∧ got <+: whole :=
  exists_find?_scanl hdone h

/-- Data events without data do not matter. -/
theorem firstDone_append {rest : List Bytes} (hrest : rest.flatten = []) (hnil : done [] = false) :
    firstDone done (rest ++ events) = firstDone done events := by
  induction rest with
  | nil => rfl
  | cons d rest ih =>
    obtain ⟨rfl, hrest⟩ := append_eq_nil_iff.mp hrest
    rw [← ih hrest, firstDone, cons_append, scanl_cons, find?_cons_of_neg (by simp [hnil])]
    rfl

end Reading

/-! ## Judging -/

section Judging

variable {s : Socket} {v : Verdict} {reason : Str} {done : Bytes → Bool} {next : Bytes → Socket → Result}
  {got whole : Bytes}

/-- The client sent nothing too early. -/
def Socket.Waited (s : Socket) : Prop := ∀ w ∈ s.writes, w.pending = []

theorem Socket.Waited.write (h : s.Waited) {events : List Bytes} (hevents : events.flatten = []) (data : Bytes) :
    (write { s with events } data).Waited := by
  intro w hw
  rcases mem_append.mp hw with hw | hw
  · exact h w hw
  · rw [mem_singleton.mp hw]
    exact hevents

/-- What comes after a write is the reply to it. -/
theorem Socket.flatten_write {events reply : List Bytes} (hevents : events.flatten = [])
    (hreplies : s.replies.head? = some reply) (data : Bytes) :
    (write { s with events } data).events.flatten = reply.flatten := by
  simp [write, hevents, headD_eq_head?_getD, hreplies]

theorem judges_ready (h : s.Waited) : Judges s.ready v ↔ v = .accepted := by
  refine ⟨fun hj => hj.succeeds.mp rfl, ?_⟩
  rintro rfl
  exact ⟨by simp [Socket.ready], by simp [Socket.ready], h⟩

theorem judges_notOffered (h : s.Waited) : Judges (s.fail (text "not_offered")) v ↔ v = .declined := by
  refine ⟨fun hj => hj.declines.mp rfl, ?_⟩
  rintro rfl
  exact ⟨by simp [Socket.fail], by simp [Socket.fail], h⟩

theorem judges_fail (h : s.Waited) (hreason : reason ≠ text "not_offered") :
    Judges (s.fail reason) v ↔ v = .failed := by
  constructor
  · rintro ⟨hsucceeds, hdeclines, -⟩
    cases v
    · exact absurd (hsucceeds.mpr rfl) (by simp [Socket.fail])
    · exact absurd (Except.error.inj (hdeclines.mpr rfl)) hreason
    · rfl
  · rintro rfl
    exact ⟨by simp [Socket.fail], by simpa [Socket.fail] using hreason, h⟩

theorem append_ne_notOffered {a : Str} (x : Str) (h : a.isPrefixOf (text "not_offered") = false) :
    a ++ x ≠ text "not_offered" := by
  intro heq
  have hprefix : a.isPrefixOf (a ++ x) := isPrefixOf_iff_prefix.mpr (prefix_append a x)
  rw [heq, h] at hprefix
  cases hprefix

/-- What comes of a reply that is read. -/
theorem judges_readUntil {P : Prop} (hs : s.Waited) (hnil : done [] = false) (hgot : firstDone done s.events = some got)
    (hread : ∀ rest, got ++ rest.flatten = s.events.flatten → got.length ≤ maxResponse →
      (Judges (next got { s with events := rest }) v ↔ P))
    (hlarge : maxResponse < got.length → (v = .failed ↔ P)) : Judges (s.readUntil done next) v ↔ P := by
  rcases @exists_receive _ _ _ _ s.ending hnil hgot with ⟨hlen, rest, hrest, heq⟩ | ⟨hlen, heq⟩
  · rw [Socket.readUntil, heq]
    exact hread rest hrest hlen
  · rw [Socket.readUntil, heq]
    exact (judges_fail hs (by decide)).trans (hlarge hlen)

/-- What comes of a reply that looks whole only when it is. -/
theorem judges_readUntil_whole {P : Prop} (hs : s.Waited) (hwhole : s.events.flatten = whole) (hnil : done [] = false)
    (hdone : done whole) (hnot : ∀ p, p <+: whole → done p → p = whole)
    (hread : ∀ rest, rest.flatten = [] → whole.length ≤ maxResponse →
      (Judges (next whole { s with events := rest }) v ↔ P))
    (hlarge : maxResponse < whole.length → (v = .failed ↔ P)) : Judges (s.readUntil done next) v ↔ P :=
  judges_readUntil hs hnil (find?_scanl_of_whole hdone hnot hwhole)
    (fun rest hrest => hread rest (append_right_eq_self.mp (hrest.trans hwhole))) hlarge

end Judging

/-! ## Lines -/

section Lines

variable {t p : Bytes}

@[simp] theorem clean_append (s t : Bytes) : clean (s ++ t) = (clean s && clean t) := all_append

theorem lf_notMem (ht : clean t) : lf ∉ t := fun h => by simpa using all_eq_true.mp ht lf h

theorem eq_line_of_mem (ht : clean t) (h : p <+: line t) (hp : lf ∈ p) : p = line t := by
  rw [line, show t ++ [cr, lf] = (t ++ [cr]) ++ [lf] by simp] at h ⊢
  rcases prefix_concat_iff.mp h with rfl | h
  · rfl
  · rcases mem_append.mp (h.subset hp) with hmem | hmem
    · exact absurd hmem (lf_notMem ht)
    · exact absurd (mem_singleton.mp hmem) (by decide)

theorem lineDone_line (t : Bytes) : lineDone (line t) := by simp [lineDone, line]

/-- A reply of one line looks whole only when it is. -/
theorem judges_readLine {s : Socket} {v : Verdict} {next : Bytes → Socket → Result} {whole : Bytes} {P : Prop}
    (hs : s.Waited) (hwhole : s.events.flatten = whole) (hline : whole = line t) (ht : clean t)
    (hread : ∀ rest, rest.flatten = [] → whole.length ≤ maxResponse →
      (Judges (next whole { s with events := rest }) v ↔ P))
    (hlarge : maxResponse < whole.length → (v = .failed ↔ P)) : Judges (s.readUntil lineDone next) v ↔ P := by
  subst hline
  exact judges_readUntil_whole hs hwhole rfl (lineDone_line t)
    (fun _ hp hdone => eq_line_of_mem ht hp (contains_iff_mem.mp hdone)) hread hlarge

end Lines

/-! ## POP3 -/

theorem Pop3Reply.starts (r : Pop3Reply) :
    (ascii "+OK").isPrefixOf r.bytes = r.ok ∧ (ascii "-ERR").isPrefixOf r.bytes = !r.ok := by
  cases h : r.ok <;> simp [Pop3Reply.bytes, h, line, ascii, isPrefixOf]

theorem Pop3Reply.clean_text (r : Pop3Reply) :
    clean ((if r.ok then ascii "+OK" else ascii "-ERR") ++ r.text.1) := by
  rw [clean_append, r.text.2, Bool.and_true]
  split <;> decide

theorem Pop3Reply.length_le (r : Pop3Reply) : r.bytes.length ≤ maxResponse := by
  have hshort := r.short
  cases h : r.ok <;> simp [Pop3Reply.bytes, h, line, ascii, maxResponse] <;> omega

theorem judges_pop3 (greet resp : Pop3Reply) {s : Socket} {events : List Bytes} (hs : s.Waited)
    (hgreet : s.events.flatten = greet.bytes) (hreplies : s.replies = [events]) (hresp : events.flatten = resp.bytes) :
    Judges (pop3 s) (Conversation.pop3 greet resp).verdict := by
  rw [← iff_true (Judges _ _)]
  refine judges_readLine hs hgreet rfl greet.clean_text (fun rest hrest _ => ?_)
    fun h => absurd greet.length_le (not_le.mpr h)
  rw [greet.starts.1]
  cases hok : greet.ok with
  | false => exact (judges_fail hs (by decide)).trans (by simp [Conversation.verdict, hok])
  | true =>
    rw [if_neg (by decide)]
    refine judges_readLine (hs.write hrest _) ((Socket.flatten_write hrest (by rw [hreplies]; rfl) _).trans hresp) rfl
      resp.clean_text (fun rest' hrest' _ => ?_) fun h => absurd resp.length_le (not_le.mpr h)
    rw [resp.starts.1, resp.starts.2]
    cases hresp : resp.ok
    · exact (judges_notOffered (hs.write hrest _)).trans (by simp [Conversation.verdict, hok, hresp])
    · exact (judges_ready (hs.write hrest _)).trans (by simp [Conversation.verdict, hok, hresp])

/-! ## PostgreSQL -/

theorem judges_postgres (answer : PgAnswer) {s : Socket} {events : List Bytes} (hs : s.Waited)
    (hevents : s.events = []) (hreplies : s.replies = [events]) (hanswer : events.flatten = answer.bytes) :
    Judges (postgres s) (Conversation.postgres answer).verdict := by
  have hdone : pgDone answer.bytes := by cases answer <;> rfl
  obtain ⟨got, hgot, hlen, hprefix⟩ := exists_firstDone hdone hanswer
  have hnil : s.events.flatten = [] := by rw [hevents]; rfl
  rw [← iff_true (Judges _ _)]
  refine judges_readUntil (hs.write hnil _) rfl (by simpa [Socket.write, hevents, hreplies] using hgot)
    (fun rest _ _ => ?_) fun hlarge => ?_
  · obtain ⟨c, cs, rfl⟩ : ∃ c cs, got = c :: cs := exists_cons_of_length_pos (of_decide_eq_true hlen)
    cases answer with
    | willing =>
      obtain rfl : c = 0x53 := (cons_prefix_cons.mp hprefix).1
      exact (judges_ready (hs.write hnil _)).trans (by simp [Conversation.verdict])
    | unwilling =>
      obtain rfl : c = 0x4E := (cons_prefix_cons.mp hprefix).1
      exact (judges_notOffered (hs.write hnil _)).trans (by simp [Conversation.verdict])
    | error message =>
      obtain rfl : c = 0x45 := (cons_prefix_cons.mp hprefix).1
      exact (judges_fail (hs.write hnil _) (append_ne_notOffered _ (by decide))).trans (by simp [Conversation.verdict])
  · have hle := hlarge.trans_le hprefix.length_le
    cases answer with
    | error => simp [Conversation.verdict]
    | _ => exact absurd hle (by decide)

/-! ## LDAP -/

theorem ldapDone_bytes (r : LdapResponse) : ldapDone r.bytes := by
  rcases r.message_eq with ⟨-, hoctets⟩ | ⟨l, -, hlong, hoctets, -⟩
  · simp only [ldapDone, LdapResponse.bytes, hoctets, Bool.and_eq_true, decide_eq_true_eq]
    have hle : (ofNat r.toLdapContent.bytes.length).toNat ≤ r.toLdapContent.bytes.length := mod_le _ _
    simp only [singleton_append, length_cons, getD_cons_succ, getD_cons_zero]
    split <;> omega
  · have hlarge : ∀ k < 0x7F, ¬ofNat (0x80 + k) < 0x80 := by decide
    simp only [ldapDone, LdapResponse.bytes, hoctets, Bool.and_eq_true, decide_eq_true_eq]
    simp only [cons_append, length_cons, getD_cons_succ, getD_cons_zero, if_neg (hlarge _ hlong)]
    omega

theorem judges_ldap (resp : LdapResponse) {s : Socket} {events : List Bytes} (hs : s.Waited)
    (hevents : s.events = []) (hreplies : s.replies = [events]) (hresp : events.flatten = resp.bytes) :
    Judges (ldap s) (Conversation.ldap resp).verdict ↔
      (resp.code = [0] ↔ Says events 0) ∧ (resp.code = [2] ∨ resp.code = [53] ↔ Says events 2 ∨ Says events 53) := by
  obtain ⟨got, hgot, -, -⟩ := exists_firstDone (ldapDone_bytes resp) hresp
  have hnil : s.events.flatten = [] := by rw [hevents]; rfl
  have hsays : ∀ c, Says events c ↔ got.length ≤ maxResponse ∧ Points got c := by
    intro c
    simp [Says, hgot]
  have hw := hs.write hnil LDAP_STARTTLS_REQUEST
  have hfailed : (Conversation.ldap resp).verdict = .failed ↔
      resp.code ≠ [0] ∧ resp.code ≠ [2] ∧ resp.code ≠ [53] := by
    grind [Conversation.verdict]
  simp only [ hsays]
  refine judges_readUntil (hs.write hnil _) rfl (by simpa [Socket.write, hevents, hreplies] using hgot)
    (fun rest _ hlen => ?_) fun hlarge => ?_
  · simp only [hlen, true_and]
    cases hi : got.idxOf? 0x78 with
    | none =>
      have hnone : ∀ c, ¬Points got c := fun c ⟨i, h, _⟩ => by rw [hi] at h; cases h
      simp only [hnone]
      exact (judges_fail hw (by decide)).trans (by rw [hfailed]; simp)
    | some i =>
      have hpoints : ∀ c, Points got c ↔ got[i + 2]? = some 0x0a ∧ got[i + 4]? = some c := by
        intro c
        simp [Points, hi]
      simp only [hpoints]
      by_cases htag : got[i + 2]? = some 0x0a
      · rw [if_neg (not_not.mpr htag)]
        simp only [htag, true_and]
        by_cases h0 : got[i + 4]? = some 0
        · simp only [h0, if_true]
          exact (judges_ready hw).trans (by grind [Conversation.verdict])
        · rw [if_neg h0]
          by_cases h2 : got[i + 4]? = some 2 ∨ got[i + 4]? = some 53
          · rw [if_pos h2]
            exact (judges_notOffered hw).trans (by grind [Conversation.verdict])
          · rw [if_neg h2]
            exact (judges_fail hw (append_ne_notOffered _ (by decide))).trans (by grind)
      · rw [if_pos htag]
        exact (judges_fail hw (by decide)).trans (by rw [hfailed]; simp [htag])
  · rw [hfailed]
    simp [not_le.mpr hlarge]

/-! ## MySQL -/

theorem length24_eq (b : Bytes) :
    length24 b = (b.getD 0 0).toNat + 256 * (b.getD 1 0).toNat + 65536 * (b.getD 2 0).toNat := by
  have h : ∀ i, (b.getD i 0).toNat < 2 ^ 8 := fun i => UInt8.toNat_lt _
  have h0 := h 0
  have h1 := h 1
  rw [length24, Nat.or_comm _ (_ <<< 8), ← Nat.shiftLeft_add_eq_or_of_lt h0, Nat.or_comm,
    ← shiftLeft_add_eq_or_of_lt (by rw [shiftLeft_eq]; omega), shiftLeft_eq, shiftLeft_eq]
  omega

namespace MysqlPacket

variable (m : MysqlPacket)

theorem length_bytes : m.bytes.length = 4 + m.payload.bytes.length := by
  simp [bytes]
  omega

theorem length24_append (rest : Bytes) : length24 ([m.a, m.b, m.c, m.sequence] ++ rest) = m.payload.bytes.length := by
  rw [length24_eq, ← m.length_eq]
  simp

theorem mysqlDone_iff {p : Bytes} (h : p <+: m.bytes) : mysqlDone p ↔ p = m.bytes := by
  constructor
  · intro hdone
    simp only [mysqlDone, Bool.and_eq_true, decide_eq_true_eq] at hdone
    obtain ⟨rest, rfl⟩ := prefix_of_prefix_length_le (prefix_append _ _) h hdone.1
    rw [length24_append] at hdone
    exact h.eq_of_length_le (by rw [length_bytes]; exact hdone.2)
  · rintro rfl
    have hlen : length24 m.bytes = m.payload.bytes.length := m.length24_append _
    simp [mysqlDone, hlen, length_bytes]

theorem idxOf?_zero {version : Bytes} (h : 0 ∉ version) (rest : Bytes) :
    (version ++ 0 :: rest).idxOf? 0 = some version.length := by
  induction version with
  | nil => simp [idxOf?_cons]
  | cons b version ih =>
    have hb : b ≠ 0 := fun heq => h (heq ▸ mem_cons_self)
    simp [idxOf?_cons, hb, ih fun hmem => h (mem_cons_of_mem _ hmem)]

theorem offers_eq : mysqlServerOffersSsl m.bytes =
    match m.payload with
    | .greeting _ _ _ _ _ low high _ _ => some ((low.toNat + 256 * high.toNat).testBit 11)
    | .other .. => none := by
  have htake : (m.bytes.drop 4).take (length24 m.bytes) = m.payload.bytes := by
    rw [bytes, length24_append]
    simp
  have hlen : length24 m.bytes = m.payload.bytes.length := m.length24_append _
  have hshort : ¬m.bytes.length < 5 := by
    rw [length_bytes]
    cases m.payload <;> simp [MysqlPayload.bytes] <;> omega
  rw [mysqlServerOffersSsl, if_neg hshort]
  dsimp only
  rw [htake, hlen]
  cases m.payload with
  | greeting version hended connection scramble filler low high rest hsizes =>
    obtain ⟨hconnection, hscramble⟩ := hsizes
    let before := 10 :: (version ++ 0 :: (connection ++ scramble ++ [filler]))
    have hbytes : (MysqlPayload.greeting version hended connection scramble filler low high rest
        ⟨hconnection, hscramble⟩).bytes = before ++ low :: high :: rest := by
      simp [MysqlPayload.bytes, before]
    have hoff : version.length + 1 + 1 + 4 + 8 + 1 = before.length := by
      simp [before, hconnection, hscramble]
    have hnul : ((before ++ low :: high :: rest).drop 1).idxOf? 0 = some version.length := by
      simpa [before] using idxOf?_zero hended _
    rw [hbytes, if_neg (by simp [before])]
    simp only [hnul, hoff]
    rw [if_neg (by simp)]
    have hlow : (before ++ low :: high :: rest).getD before.length 0 = low := by simp
    have hhigh : (before ++ low :: high :: rest).getD (before.length + 1) 0 = high := by simp
    have hbit := and_two_pow (low.toNat + 256 * high.toNat) 11
    rw [hlow, hhigh, MYSQL_CLIENT_SSL, show 0x0800 = 2 ^ 11 from rfl, hbit]
    cases (low.toNat + 256 * high.toNat).testBit 11 <;> rfl
  | other first rest hother => simp [MysqlPayload.bytes, hother]

end MysqlPacket

theorem judges_mysql (greet : MysqlPacket) {s : Socket} (hs : s.Waited) (hgreet : s.events.flatten = greet.bytes) :
    Judges (mysql s) (Conversation.mysql greet).verdict := by
  rw [← iff_true (Judges _ _)]
  refine judges_readUntil_whole hs hgreet rfl ((greet.mysqlDone_iff prefix_rfl).mpr rfl)
    (fun p hp => (greet.mysqlDone_iff hp).mp) (fun rest hrest _ => ?_) fun hlarge => ?_
  · rw [greet.offers_eq, Conversation.verdict]
    cases greet.payload with
    | greeting _ _ _ _ _ low high _ _ =>
      dsimp only
      cases (low.toNat + 256 * high.toNat).testBit 11
      · exact (judges_notOffered hs).trans (by simp)
      · exact (judges_ready (hs.write hrest _)).trans (by simp)
    | other => exact (judges_fail hs (by decide)).trans (by simp)
  · rw [greet.length_bytes] at hlarge
    exact absurd greet.fits (not_le.mpr hlarge)

/-! ## Constants at the start of lines -/

section AtLine

variable {test : Bytes → Bool} {t s p : Bytes}

theorem afterBreaks_append (ht : clean t) (s : Bytes) : afterBreaks (t ++ s) = afterBreaks s := by
  induction t with
  | nil => rfl
  | cons b t ih =>
    obtain ⟨hb, ht⟩ := Bool.and_eq_true_iff.mp ht
    rw [cons_append, afterBreaks, if_neg (by simpa using hb)]
    exact ih ht

/-- After a line comes what comes after it. -/
theorem atLine_line (ht : clean t) (hlf : ∀ s, test (lf :: s) = false) :
    atLine test (line t ++ s) = (test (line t ++ s) || atLine test s) := by
  simp [atLine, line, afterBreaks_append ht, afterBreaks, hlf]

/-- Before the end of a line nothing comes after it. -/
theorem atLine_of_prefix (ht : clean t) (hlf : ∀ s, test (lf :: s) = false) (hnil : test [] = false)
    (h : p <+: line t) : atLine test p = test p := by
  rw [line, show t ++ [cr, lf] = t ++ [cr] ++ [lf] by simp] at h
  rcases prefix_concat_iff.mp h with rfl | h
  · simp [atLine, afterBreaks_append ht, afterBreaks, hlf, hnil]
  · rcases prefix_concat_iff.mp h with rfl | ⟨rest, rfl⟩
    · simp [atLine, afterBreaks_append ht, afterBreaks, hnil]
    · have hnone := afterBreaks_append (Bool.and_eq_true_iff.mp (clean_append _ _ ▸ ht)).1 []
      rw [append_nil] at hnone
      simp [atLine, hnone, afterBreaks]

theorem startsWithI_iff {w x g : Bytes} (hg : g <+: w ++ x) : startsWithI (w.map upper) g ↔ w <+: g := by
  rw [startsWithI, isPrefixOf_iff_prefix]
  constructor
  · intro h
    have hlen := h.length_le
    rw [length_map, length_map] at hlen
    exact prefix_of_prefix_length_le (prefix_append _ _) hg hlen
  · exact fun h => h.map upper

/-- What begins like a word does not begin like others. -/
theorem startsWithI_eq {w x g c : Bytes} {words : List Bytes} (hg : g <+: w ++ x) (hw : w.map upper ∈ words)
    (hc : c ∈ words) (hwords : ∀ c ∈ words, ∀ d ∈ words, c <+: d → c = d) :
    startsWithI c g = (decide (c = w.map upper) && startsWithI (w.map upper) g) := by
  by_cases heq : c = w.map upper
  · simp [heq]
  · rw [decide_eq_false heq, Bool.false_and, startsWithI, Bool.eq_false_iff, ne_eq, isPrefixOf_iff_prefix]
    intro h
    have hg' := h.trans (hg.map upper)
    rw [map_append] at hg'
    rcases prefix_or_prefix_of_prefix hg' (prefix_append _ _) with h | h
    · exact heq (hwords _ hc _ hw h)
    · exact heq (hwords _ hw _ hc h).symm

end AtLine

/-! ## IMAP -/

theorem clean_word {capitals : Bytes} (w : Word capitals) (h : clean capitals) : clean w.1 := by
  rw [clean, all_eq_true]
  intro u hu
  have hupper := all_eq_true.mp h _ (w.2 ▸ mem_map_of_mem hu)
  by_cases hcr : u = cr
  · exact absurd hupper (by rw [hcr]; decide)
  · by_cases hlf : u = lf
    · exact absurd hupper (by rw [hlf]; decide)
    · simp [hcr, hlf]

namespace ImapServer

variable {i : ImapServer} {test : Bytes → Bool} {untagged : List Text} {p s : Bytes}

theorem clean_untagged (t : Text) : clean (ascii "* " ++ t.1) := by
  rw [clean_append, t.2]
  rfl

/-- No untagged line is like a tagged one. -/
theorem atLine_untagged (hstar : ∀ s, test (0x2A :: s) = false) (hlf : ∀ s, test (lf :: s) = false) :
    atLine test (untaggedLines untagged ++ s) = atLine test s := by
  induction untagged with
  | nil => rfl
  | cons t untagged ih =>
    rw [untaggedLines, flatMap_cons, append_assoc, atLine_line (clean_untagged t) hlf,
      show test (line (ascii "* " ++ t.1) ++ _) = false from hstar _, Bool.false_or]
    exact ih

/-- What looks whole has come to the tagged line. -/
theorem exists_tagged (h : p <+: untaggedLines untagged ++ s)
    (hdone : atLine ((ascii "a1 ").isPrefixOf ·) p) : ∃ g, p = untaggedLines untagged ++ g ∧ g <+: s := by
  induction untagged generalizing p with
  | nil => exact ⟨p, rfl, h⟩
  | cons t untagged ih =>
    have ht := clean_untagged t
    rw [untaggedLines, flatMap_cons, append_assoc] at h
    rcases prefix_or_prefix_of_prefix h (prefix_append _ _) with hp | ⟨p', rfl⟩
    · rw [ atLine_of_prefix ht (fun _ => rfl) rfl hp] at hdone
      have hstar := ( isPrefixOf_iff_prefix.mp hdone).trans hp
      exact absurd (cons_prefix_cons.mp hstar).1 (by decide)
    · rw [atLine_line ht fun _ => rfl] at hdone
      obtain ⟨g, rfl, hg⟩ := ih ((prefix_append_right_inj _).mp h) (by simpa [line, ascii, isPrefixOf] using hdone)
      exact ⟨g, by simp [untaggedLines], hg⟩

theorem clean_tagged (i : ImapServer) : clean (i.tagged ++ space :: i.rest.1) := by
  have hword : clean i.statusWord.1 := clean_word _ (by cases i.status <;> rfl)
  simp [tagged, hword, show clean (space :: i.rest.1) from i.rest.2, show clean (ascii "a1 ") from rfl]

theorem clean_greet (i : ImapServer) : clean (ascii "* " ++ i.greetingWord.1 ++ space :: i.hello.1) := by
  have hword : clean i.greetingWord.1 := clean_word _ (by cases i.greeting <;> rfl)
  simp [hword, show clean (space :: i.hello.1) from i.hello.2, show clean (ascii "* ") from rfl]

theorem starts_greet (i : ImapServer) :
    (startsWithI (ascii "* OK") i.greet || startsWithI (ascii "* PREAUTH") i.greet) = decide (i.greeting ≠ .bye) := by
  have hg : i.greet <+: (ascii "* " ++ i.greetingWord.1) ++ line (space :: i.hello.1) := by simp [greet, line]
  have hmap : (ascii "* " ++ i.greetingWord.1).map upper = ascii "* " ++ i.greeting.capitals := by
    rw [map_append, i.greetingWord.2]
    rfl
  have hfound := (startsWithI_iff hg).mpr (by simp [greet, line])
  have hmem : (ascii "* " ++ i.greetingWord.1).map upper ∈ [ascii "* OK", ascii "* PREAUTH", ascii "* BYE"] := by
    rw [hmap]
    cases i.greeting <;> decide
  rw [startsWithI_eq (c := ascii "* OK") hg hmem (by decide) (by decide),
    startsWithI_eq (c := ascii "* PREAUTH") hg hmem (by decide) (by decide), hfound, hmap]
  cases i.greeting <;> rfl

/-- What the client finds in what looks whole to it. -/
theorem judges_resp {s : Socket} (hs : s.Waited) (hgreeting : i.greeting ≠ .bye) (hp : p <+: i.resp)
    (hdone : imapDone p) : Judges (if atLine (startsWithI (ascii "A1 OK")) p then s.ready
      else if atLine (fun l => startsWithI (ascii "A1 NO") l || startsWithI (ascii "A1 BAD") l) p then
        s.fail (text "not_offered") else s.fail (text "imap_starttls"))
      (Conversation.imap i).verdict ↔ untaggedLines i.untagged ++ i.tagged <+: p := by
  obtain ⟨g, rfl, hg⟩ := exists_tagged hp (Bool.and_eq_true_iff.mp hdone).1
  have hat : ∀ test : Bytes → Bool, (∀ s, test (0x2A :: s) = false) → (∀ s, test (lf :: s) = false) → test [] = false →
      atLine test (untaggedLines i.untagged ++ g) = test g := fun test hstar hlf hnil =>
    (atLine_untagged hstar hlf).trans ( atLine_of_prefix i.clean_tagged hlf hnil hg)
  have hg' : g <+: i.tagged ++ line (space :: i.rest.1) := by simpa [line] using hg
  have hmap : i.tagged.map upper = ascii "A1 " ++ i.status.capitals := by
    rw [tagged, map_append, i.statusWord.2]
    rfl
  have hmem : i.tagged.map upper ∈ [ascii "A1 OK", ascii "A1 NO", ascii "A1 BAD"] := by
    rw [hmap]
    cases i.status <;> decide
  have hfind : ∀ c ∈ [ascii "A1 OK", ascii "A1 NO", ascii "A1 BAD"], _ := fun c hc =>
    startsWithI_eq hg' hmem hc (by decide)
  rw [hat _ (fun _ => rfl) (fun _ => rfl) rfl, hat _ (fun _ => rfl) (fun _ => rfl) rfl, prefix_append_right_inj,
    ← startsWithI_iff hg', hfind (ascii "A1 OK") (by decide), hfind (ascii "A1 NO") (by decide),
    hfind (ascii "A1 BAD") (by decide), ← Bool.and_or_distrib_right, Conversation.verdict, if_neg hgreeting, hmap]
  cases startsWithI (ascii "A1 " ++ i.status.capitals) g <;> cases i.status
  all_goals first
    | exact (judges_ready hs).trans (by decide)
    | exact (judges_notOffered hs).trans (by decide)
    | exact (judges_fail hs (by decide)).trans (by decide)

end ImapServer

theorem judges_imap (i : ImapServer) {s : Socket} {events : List Bytes} (hs : s.Waited)
    (hgreet : s.events.flatten = i.greet) (hreplies : s.replies = [events]) (hresp : events.flatten = i.resp) :
    Judges (imap s) (Conversation.imap i).verdict ↔ i.greeting = .bye ∨ i.greet.length ≤ maxResponse ∧
      ∃ got, firstDone imapDone events = some got ∧ got.length ≤ maxResponse ∧
        untaggedLines i.untagged ++ i.tagged <+: got := by
  have hwhole : imapDone i.resp := by
    rw [imapDone, ImapServer.resp, ImapServer.atLine_untagged (fun _ => rfl) (fun _ => rfl)]
    simp [atLine, ImapServer.tagged, ascii, line, isPrefixOf]
  obtain ⟨got, hgot, hdone, hp⟩ := exists_firstDone hwhole hresp
  have hv : (Conversation.imap i).verdict = .failed ↔ i.greeting = .bye := by grind [Conversation.verdict]
  refine judges_readLine hs hgreet rfl i.clean_greet (fun rest hrest hlen => ?_) fun hlarge => ?_
  · rw [i.starts_greet]
    by_cases hbye : i.greeting = .bye
    · rw [if_pos (by simp [hbye])]
      exact (judges_fail hs (by decide)).trans (by simp [hv, hbye])
    · have hevents : firstDone imapDone (Socket.write { s with events := rest } (ascii "a1 STARTTLS\r\n")).events =
          some got := by
        rw [← hgot, Socket.write, hreplies]
        exact firstDone_append hrest rfl
      rw [if_neg (by simp [hbye])]
      simp only [hbye, hlen, hgot, Option.some.injEq, exists_eq_left', false_or, true_and]
      refine judges_readUntil (hs.write hrest _) rfl hevents (fun _ _ hle => ?_) fun hlarge => ?_
      · rw [and_iff_right hle]
        exact ImapServer.judges_resp (hs.write hrest _) hbye hp hdone
      · simp [hv, hbye, not_le.mpr hlarge]
  · simp [hv, not_le.mpr hlarge]

/-! ## SMTP -/

namespace SmtpReply

variable (r : SmtpReply) {x p : Bytes}

theorem isSpace_of_isDigit {b : UInt8} (h : isDigit b) : isSpace b = false := by
  have hall : ∀ b : BitVec 8, isDigit ⟨b⟩ → isSpace ⟨b⟩ = false := by decide
  exact hall b.toBitVec h

theorem clean_code : clean r.code := by
  have hdigit : ∀ u : BitVec 8, isDigit ⟨u⟩ → (⟨u⟩ != cr && ⟨u⟩ != lf) := by decide
  obtain ⟨ha, hb, hc⟩ := r.digits
  simp only [clean, code, all_cons, hdigit _ ha, hdigit _ hb, hdigit _ hc]
  rfl

theorem clean_dashed (t : Text) : clean (r.code ++ dash :: t.1) := by
  rw [clean_append, r.clean_code]
  exact t.2

theorem clean_tail : clean r.tail := by
  unfold tail
  cases r.last with
  | none => rfl
  | some t => exact t.2

theorem clean_last : clean (r.code ++ r.tail) := by rw [clean_append, r.clean_code, r.clean_tail]; rfl

theorem rtakeWhile_last {z : Bytes} (hz : lf ∉ z) (ts : List Text) : (r.dashed ts ++ z).rtakeWhile (· != lf) = z := by
  have hpos : ∀ u ∈ z.reverse, (u != lf) := by
    intro u hu
    simp only [bne_iff_ne]
    rintro rfl
    exact hz (mem_reverse.mp hu)
  rw [rtakeWhile, reverse_append]
  cases ts using reverseRecOn with
  | nil => rw [dashed, flatMap_nil, reverse_nil, append_nil, takeWhile_eq_self_iff.mpr hpos, reverse_reverse]
  | append_singleton ts t =>
    rw [takeWhile_append_of_pos hpos]
    simp [dashed, line]

/-- A line is the last one where a space or nothing follows the code. -/
theorem smtpDone_line (ts : List Text) (hx : clean x) :
    smtpDone (r.dashed ts ++ line (r.code ++ x)) = (x.rdropWhile isSpace).head?.all isSpace := by
  obtain ⟨ha, hb, hc⟩ := r.digits
  have hhead : ∃ rest, r.dashed ts ++ line (r.code ++ x) = r.a :: rest := by
    cases ts <;> exact ⟨_, rfl⟩
  obtain ⟨rest, hrest⟩ := hhead
  have hfront : (r.dashed ts ++ line (r.code ++ x)).dropWhile isSpace = r.dashed ts ++ line (r.code ++ x) := by
    rw [hrest, dropWhile_cons_of_neg (by simp [isSpace_of_isDigit ha])]
  -- the code stops what is trimmed from the end
  have hend : (r.dashed ts ++ line (r.code ++ x)).rdropWhile isSpace =
      r.dashed ts ++ (r.code ++ x.rdropWhile isSpace) := by
    have hcrlf : (x ++ [cr, lf]).rdropWhile isSpace = x.rdropWhile isSpace := by
      rw [show x ++ [cr, lf] = x ++ [cr] ++ [lf] by simp, rdropWhile_concat_pos _ _ _ rfl,
        rdropWhile_concat_pos _ _ _ rfl]
    rw [← hcrlf, show r.dashed ts ++ line (r.code ++ x) = (r.dashed ts ++ [r.a, r.b]) ++ r.c :: (x ++ [cr, lf]) by
      simp [line, code], Ends.rdropWhile_append_cons (isSpace_of_isDigit hc)]
    simp [code]
  have hlast : lf ∉ r.code ++ x.rdropWhile isSpace := by
    intro h
    rcases mem_append.mp h with h | h
    · exact lf_notMem r.clean_code h
    · exact lf_notMem hx (Ends.mem_of_mem_rdropWhile h)
  rw [smtpDone, trim, hfront, hend, r.rtakeWhile_last hlast]
  have hsuffix : [lf].isSuffixOf (r.dashed ts ++ line (r.code ++ x)) :=
    isSuffixOf_iff_suffix.mpr ⟨r.dashed ts ++ (r.code ++ x ++ [cr]), by simp [line]⟩
  rw [hsuffix, Bool.or_true, Bool.true_and]
  simp [code, isLastLine, ha, hb, hc]

/-- What ends with a line of a reply is whole or some of its first lines. -/
theorem eq_of_prefix {last : Bytes} {ts : List Text} (hlast : clean last) (h : p <+: r.dashed ts ++ line last)
    (hp : p.getLast? = some lf) : p = r.dashed ts ++ line last ∨ ∃ ts' t, p = r.dashed (ts' ++ [t]) := by
  induction ts generalizing p with
  | nil => exact .inl (eq_line_of_mem hlast h (mem_of_getLast? hp))
  | cons t ts ih =>
    rw [dashed, flatMap_cons, append_assoc] at h
    rcases prefix_or_prefix_of_prefix h (prefix_append _ _) with hline | ⟨p', rfl⟩
    · exact .inr ⟨[], t, by simpa [dashed] using eq_line_of_mem (r.clean_dashed t) hline (mem_of_getLast? hp)⟩
    · cases p' with
      | nil => exact .inr ⟨[], t, by simp [dashed]⟩
      | cons u p' =>
        rw [getLast?_append_cons] at hp
        rcases ih ((prefix_append_right_inj _).mp h) hp with hwhole | ⟨ts', t', hts⟩
        · exact .inl (by rw [hwhole]; simp [dashed])
        · exact .inr ⟨t :: ts', t', by rw [hts]; simp [dashed]⟩

theorem smtpDone_bytes : smtpDone r.bytes := by
  refine (r.smtpDone_line r.before r.clean_tail).trans ?_
  have hprefix := rdropWhile_prefix isSpace (l := r.tail)
  rw [Option.all_eq_true]
  intro u hu
  obtain ⟨rest, hrest⟩ := head?_eq_some_iff.mp hu
  rw [hrest] at hprefix
  cases h : r.last with
  | none => simp [tail, h] at hprefix
  | some t =>
    simp only [tail, h, Option.elim_some, cons_prefix_cons] at hprefix
    rw [ hprefix.1]
    rfl

theorem eq_of_smtpDone (h : p <+: r.bytes) (hp : smtpDone p) : p = r.bytes := by
  have hlast : p.getLast? = some lf := by
    have hends := (Bool.and_eq_true_iff.mp hp).1
    rcases Bool.or_eq_true_iff.mp hends with h | h
    · obtain ⟨q, rfl⟩ := isSuffixOf_iff_suffix.mp h
      simp
    · obtain ⟨q, rfl⟩ := isSuffixOf_iff_suffix.mp h
      simp
  rcases r.eq_of_prefix r.clean_last h hlast with h | ⟨ts, t, rfl⟩
  · exact h
  · have hdash := r.smtpDone_line (x := dash :: t.1) ts t.2
    rw [show dash :: t.1 = [] ++ dash :: t.1 from rfl, Ends.rdropWhile_append_cons (by rfl)] at hdash
    rw [show r.dashed (ts ++ [t]) = r.dashed ts ++ line (r.code ++ ([] ++ dash :: t.1)) by simp [dashed], hdash] at hp
    cases hp

theorem isPrefixOf_bytes {code : Bytes} (h : code.length = 3) : code.isPrefixOf r.bytes = decide (r.code = code) := by
  have hcode : r.code <+: r.bytes := by cases h : r.before <;> simp [bytes, dashed, h, line]
  by_cases heq : r.code = code
  · simp [heq, isPrefixOf_iff_prefix.mpr (heq ▸ hcode)]
  · rw [decide_eq_false heq, Bool.eq_false_iff, ne_eq, isPrefixOf_iff_prefix]
    have hlen : r.code.length = code.length := by simp [h, SmtpReply.code]
    exact fun hp => heq ((prefix_of_prefix_length_le hcode hp hlen.le).eq_of_length hlen)

theorem startsWithI_cr {c : Bytes} (hc : cr ∉ c) (t s : Bytes) : startsWithI c (t ++ cr :: s) = startsWithI c t := by
  induction c generalizing t with
  | nil => rfl
  | cons b c ih =>
    obtain ⟨hb, hc⟩ := not_or.mp (mt mem_cons.mpr hc)
    cases t with
    | nil => simpa [startsWithI, isPrefixOf, show upper cr = cr from rfl] using fun h => absurd h.symm hb
    | cons u t => simpa [startsWithI, isPrefixOf] using congrArg (b == upper u && ·) (ih hc t)

def isOffer (s : Bytes) : Bool := startsWithI (ascii "250-STARTTLS") s || startsWithI (ascii "250 STARTTLS") s

theorem isOffer_line (hcode : r.code = ascii "250") {sep : UInt8} (hsep : sep = dash ∨ sep = space) (t s : Bytes) :
    isOffer (line (r.code ++ sep :: t) ++ s) = startsWithI (ascii "STARTTLS") t := by
  rw [hcode, ← startsWithI_cr (by decide) t (lf :: s)]
  rcases hsep with rfl | rfl
  · exact (Bool.or_false _).trans (by simp [line, startsWithI, ascii, isPrefixOf, dash, upper])
  · exact (Bool.false_or _).trans (by simp [line, startsWithI, ascii, isPrefixOf, space, upper])

/-- The client finds the constant where any line begins with it. -/
theorem offersStartTls_bytes (hcode : r.code = ascii "250") :
    offersStartTls r.bytes = r.texts.any (startsWithI (ascii "STARTTLS")) := by
  have hlf : ∀ s, isOffer (lf :: s) = false := fun _ => rfl
  have hdashed : ∀ ts : List Text, ∀ s, atLine isOffer (r.dashed ts ++ s) =
      (ts.any (fun t => startsWithI (ascii "STARTTLS") t.1) || atLine isOffer s) := by
    intro ts s
    induction ts with
    | nil => rfl
    | cons t ts ih =>
      rw [dashed, flatMap_cons, append_assoc, atLine_line (r.clean_dashed t) hlf, any_cons, Bool.or_assoc]
      exact congr (congrArg _ (r.isOffer_line hcode (.inl rfl) _ _)) ih
  have hlast : atLine isOffer (line (r.code ++ r.tail)) =
      (r.last.map Subtype.val).any (startsWithI (ascii "STARTTLS")) := by
    have hline := atLine_line (s := []) r.clean_last hlf
    rw [append_nil] at hline
    rw [hline, show atLine isOffer [] = false from rfl, Bool.or_false]
    cases h : r.last with
    | none => rw [tail, h, hcode]; rfl
    | some t => simpa [tail, h] using r.isOffer_line hcode (.inr rfl) t.1 []
  refine (hdashed r.before _).trans ?_
  rw [hlast, texts, any_append, any_map]
  cases r.last <;> simp

theorem exists_of_offers (h : r.Offers) : ∃ t ∈ r.texts, startsWithI (ascii "STARTTLS") t := by
  obtain ⟨t, ht, heq⟩ := h
  refine ⟨t, mem_of_mem_tail ht, ?_⟩
  rw [startsWithI, isPrefixOf_iff_prefix, ← heq]
  exact ( takeWhile_prefix _).map upper

end SmtpReply

theorem judges_readSmtp {r : SmtpReply} {s : Socket} {v : Verdict} {next : Bytes → Socket → Result} {P : Prop}
    (hs : s.Waited) (hwhole : s.events.flatten = r.bytes)
    (hread : ∀ rest, rest.flatten = [] → r.bytes.length ≤ maxResponse →
      (Judges (next r.bytes { s with events := rest }) v ↔ P))
    (hlarge : maxResponse < r.bytes.length → (v = .failed ↔ P)) : Judges (s.readUntil smtpDone next) v ↔ P :=
  judges_readUntil_whole hs hwhole rfl r.smtpDone_bytes (fun _ => r.eq_of_smtpDone) hread hlarge

theorem judges_smtp (greet ehlo go : SmtpReply) {s : Socket} {events₁ events₂ : List Bytes} (hs : s.Waited)
    (hgreet : s.events.flatten = greet.bytes) (hreplies : s.replies = [events₁, events₂])
    (hehlo : events₁.flatten = ehlo.bytes) (hgo : events₂.flatten = go.bytes) :
    Judges (smtp s) (Conversation.smtp greet ehlo go).verdict ↔
      (Conversation.smtp greet ehlo go).verdict = .failed ∨ greet.bytes.length ≤ maxResponse ∧
        ehlo.bytes.length ≤ maxResponse ∧ if ehlo.Offers then go.bytes.length ≤ maxResponse
          else ∀ t ∈ ehlo.texts, ¬startsWithI (ascii "STARTTLS") t := by
  refine judges_readSmtp hs hgreet (fun rest hrest hlen => ?_) fun hlarge => by simp [not_le.mpr hlarge]
  rw [greet.isPrefixOf_bytes rfl]
  by_cases h220 : greet.code = ascii "220"
  · rw [if_neg (by simp [h220])]
    refine judges_readSmtp (hs.write hrest _) ((Socket.flatten_write hrest (by rw [hreplies]; rfl) _).trans hehlo)
      (fun rest' hrest' hlen' => ?_) fun hlarge => by simp [not_le.mpr hlarge]
    rw [ehlo.isPrefixOf_bytes rfl]
    by_cases h250 : ehlo.code = ascii "250"
    · rw [if_neg (by simp [h250]), ehlo.offersStartTls_bytes h250]
      have hv : (Conversation.smtp greet ehlo go).verdict =
          if ehlo.Offers then if go.code = ascii "220" then .accepted else .failed else .declined := by
        simp only [Conversation.verdict, h220, h250]
        by_cases h : ehlo.Offers <;> simp [h]
      rw [and_iff_right hlen, and_iff_right hlen', hv]
      cases hany : ehlo.texts.any (startsWithI (ascii "STARTTLS")) with
      | false =>
        have hnone := any_eq_false.mp hany
        have hoffers : ¬ehlo.Offers := fun h => by
          obtain ⟨t, ht, hstart⟩ := ehlo.exists_of_offers h
          exact hnone t ht hstart
        rw [if_pos (by decide), if_neg hoffers, if_neg hoffers]
        exact (judges_notOffered ((hs.write hrest _))).trans (by simpa using hnone)
      | true =>
        have hsome : ∃ t ∈ ehlo.texts, startsWithI (ascii "STARTTLS") t := by simpa using hany
        rw [if_neg (by decide)]
        refine judges_readSmtp ((hs.write hrest _).write hrest' _)
          ((Socket.flatten_write hrest' (by simp [Socket.write, hreplies]) _).trans hgo) (fun _ _ hlen => ?_)
          fun hlarge => ?_
        · have hw := (hs.write hrest (ascii "EHLO tracenium.probe\r\n")).write hrest' (ascii "STARTTLS\r\n")
          rw [go.isPrefixOf_bytes rfl]
          by_cases hgo220 : go.code = ascii "220"
          · rw [if_neg (by simp [hgo220])]
            refine (judges_ready hw).trans ?_
            by_cases h : ehlo.Offers <;> simp [h, hgo220, hsome, hlen]
          · rw [if_pos (by simp [hgo220])]
            refine (judges_fail hw (append_ne_notOffered _ (by decide))).trans ?_
            by_cases h : ehlo.Offers <;> simp [h, hgo220, hsome]
        · by_cases h : ehlo.Offers <;> simp [h, hsome, not_le.mpr hlarge]
    · rw [if_pos (by simp [h250])]
      exact (judges_fail (hs.write hrest _) (append_ne_notOffered _ (by decide))).trans
        (by simp [Conversation.verdict, h250])
  · rw [if_pos (by simp [h220])]
    exact (judges_fail hs (append_ne_notOffered _ (by decide))).trans (by simp [Conversation.verdict, h220])

/-! ## All protocols -/

/-- The preamble ends as the server answered, with nothing sent too early, exactly in the dialogues that are legible. -/
theorem judges_iff_legible (d : Dialogue) : Judges d.result d.conversation.verdict ↔ d.Legible := by
  obtain ⟨conversation, events, ending, whole⟩ := d
  have hs : ∀ events replies, Socket.Waited ⟨events, replies, ending, []⟩ := fun _ _ _ hw => absurd hw not_mem_nil
  cases conversation with
  | smtp greet ehlo go =>
    obtain ⟨a, _, rfl, ha, h⟩ := map_eq_cons_iff.mp whole
    obtain ⟨b, _, rfl, hb, h⟩ := map_eq_cons_iff.mp h
    obtain ⟨c, _, rfl, hc, h⟩ := map_eq_cons_iff.mp h
    obtain rfl := map_eq_nil_iff.mp h
    exact judges_smtp greet ehlo go (hs _ _) ha rfl hb hc
  | imap i =>
    obtain ⟨a, _, rfl, ha, h⟩ := map_eq_cons_iff.mp whole
    obtain ⟨b, _, rfl, hb, h⟩ := map_eq_cons_iff.mp h
    obtain rfl := map_eq_nil_iff.mp h
    exact judges_imap i (hs _ _) ha rfl hb
  | pop3 greet resp =>
    obtain ⟨a, _, rfl, ha, h⟩ := map_eq_cons_iff.mp whole
    obtain ⟨b, _, rfl, hb, h⟩ := map_eq_cons_iff.mp h
    obtain rfl := map_eq_nil_iff.mp h
    exact iff_true_intro (judges_pop3 greet resp (hs _ _) ha rfl hb)
  | ldap resp =>
    obtain ⟨a, _, rfl, ha, h⟩ := map_eq_cons_iff.mp whole
    obtain rfl := map_eq_nil_iff.mp h
    exact judges_ldap resp (hs _ _) rfl rfl ha
  | postgres answer =>
    obtain ⟨a, _, rfl, ha, h⟩ := map_eq_cons_iff.mp whole
    obtain rfl := map_eq_nil_iff.mp h
    exact iff_true_intro (judges_postgres answer (hs _ _) rfl rfl ha)
  | mysql greet =>
    obtain ⟨a, _, rfl, ha, h⟩ := map_eq_cons_iff.mp whole
    exact iff_true_intro (judges_mysql greet (hs _ _) ha)

/-- The server lists its capabilities and goes ahead, and its last line comes in two data events. -/
def cutStatus : Dialogue where
  conversation := .imap {
    greeting := .ok
    greetingWord := ⟨ascii "OK", by decide⟩
    hello := ⟨ascii "ready", by decide⟩
    untagged := [⟨ascii "CAPABILITY IMAP4rev1", by decide⟩]
    status := .ok
    statusWord := ⟨ascii "OK", by decide⟩
    rest := ⟨ascii "Begin TLS", by decide⟩ }
  events := [[ascii "* OK ready\r\n"], [ascii "* CAPABILITY IMAP4rev1\r\na1 ", ascii "OK Begin TLS\r\n"]]
  ending := .timeout
  whole := by decide

theorem not_judges_cutStatus : ¬∀ d : Dialogue, Judges d.result d.conversation.verdict := by
  intro h
  have hok := (h cutStatus).succeeds.mpr rfl
  exact absurd hok (by decide)

end Cdp.StartTls
