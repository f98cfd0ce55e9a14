import XfoLws.Lib.PrefixCode
import XfoLws.Wire.AccountBytes

/-!
# Commands between the main server and its scanners

`write_command` puts a header before the msgpack of a command, with its id and
the length of the rest; `call` reads the rest back.
-/

namespace XfoLws.Scanner

open Db Wire Msgpack

/-! ## Headers -/

structure Header where
  version : Byte
  id : Byte
  length : ℕ
deriving DecidableEq, Repr

/-- `sizeof(header)`. -/
def headerSize : ℕ := 6

/-- The length is a little-endian integer. -/
def Header.bytes (header : Header) : Bytes :=
  header.version :: header.id :: (toBytes 4 header.length).reverse

/-- `std::memcpy` of as many bytes as a header has. -/
def Header.ofBytes : Bytes → Header
  | version :: id :: length => ⟨version, id, Msgpack.ofBytes length.reverse⟩
  | _ => ⟨0, 0, 0⟩

/-- `complete_command`; `none` is the empty slice. -/
def completeCommand (id : Byte) (sink : Bytes) : Option Bytes :=
  if sink.length < headerSize then none
  else if 2 ^ 32 - 1 < sink.length - headerSize then none
  else
    some (Header.bytes ⟨0, id, sink.length - headerSize⟩ ++
      sink.drop headerSize)

/-- The message of `write_command`, which throws when the writer does. -/
def message (id : Byte) (value : Value ℕ) : Except Failure (Option Bytes) := do
  let payload ← writeValue value
  .ok (completeCommand id (List.replicate headerSize 0 ++ payload))

/-- What follows the header of a message. -/
def payload (message : Bytes) : Bytes := message.drop headerSize

@[simp] theorem Header.length_bytes (header : Header) :
    header.bytes.length = headerSize := by
  simp [Header.bytes, headerSize]

theorem Header.ofBytes_bytes {header : Header} (fits : header.length < 2 ^ 32) :
    Header.ofBytes header.bytes = header := by
  have back : Msgpack.ofBytes (toBytes 4 header.length) = header.length :=
    ofBytes_toBytes fits
  simp only [Header.bytes, Header.ofBytes, List.reverse_reverse, back]

/-- The header tells how long the rest is. -/
def framing : PrefixCode.Framing Byte where
  size := headerSize
  positive := Nat.succ_pos 5
  bodyLength header := (Header.ofBytes header).length

/-- A completed command is a header and what was written behind it. -/
theorem completeCommand_parts {id : Byte} {sink bytes : Bytes}
    (completed : completeCommand id sink = some bytes) :
    framing.Message bytes ∧ (Header.ofBytes (bytes.take headerSize)).id = id ∧
      payload bytes = sink.drop headerSize := by
  rw [completeCommand] at completed
  simp only [Option.ite_none_left_eq_some, Option.some.injEq] at completed
  obtain ⟨enough, small, rfl⟩ := completed
  have fits : sink.length - headerSize < 2 ^ 32 := by omega
  have header := @Header.ofBytes_bytes ⟨0, id, sink.length - headerSize⟩ fits
  have size := Header.length_bytes ⟨0, id, sink.length - headerSize⟩
  refine ⟨?_, ?_, ?_⟩
  · apply framing.message_append size
    show _ = (Header.ofBytes _).length
    rw [header, List.length_drop]
  · rw [List.take_left' size, header]
  · rw [payload, List.drop_left' size]

theorem message_parts {id : Byte} {value : Value ℕ} {bytes : Bytes}
    (written : message id value = .ok (some bytes)) :
    framing.Message bytes ∧ (Header.ofBytes (bytes.take headerSize)).id = id ∧
      writeValue value = .ok (payload bytes) := by
  rw [message, Outcome.bind_eq_ok] at written
  obtain ⟨body, source, completed⟩ := written
  obtain ⟨whole, sameId, rest⟩ := completeCommand_parts (Except.ok.inj completed)
  rw [List.drop_left' (List.length_replicate ..)] at rest
  exact ⟨whole, sameId, rest ▸ source⟩

/-- Every message that is not empty is written; only its size is refused. -/
theorem message_isOk {id : Byte} {value : Value ℕ} {body : Bytes}
    (written : writeValue value = .ok body) :
    (∃ bytes, message id value = .ok (some bytes)) ↔ body.length < 2 ^ 32 := by
  simp only [message, written, bind, Except.bind, completeCommand,
    List.length_append, List.length_replicate, Nat.add_sub_cancel_left,
    Except.ok.injEq, Option.ite_none_left_eq_some, Option.some.injEq,
    exists_and_left, exists_eq', and_true]
  omega

/-! ## Commands -/

/-- From a scanner to the main server: `initialize` and `update_accounts`. -/
inductive ClientCommand where
  | initializeScanner (pass : Bytes) (threads : ℕ)
  | updateAccounts (users : List LwsAccount) (blocks : List Hash)

/-- From the main server to a scanner: `push_accounts` and
`replace_accounts`. -/
inductive ServerCommand where
  | pushAccounts (users : List LwsAccount)
  | replaceAccounts (users : List LwsAccount)

/-- `map_push_accounts` and `map_replace_accounts`. -/
def usersEntries (users : List LwsAccount) : List (ℕ × Option (Value ℕ)) :=
  [(0, trustedArray accountValue users)]

def readUsers (value : Value ℕ) : Except Schema (List LwsAccount) := do
  let fields ← readObject value
  readTrustedArray fields 0 readAccount

namespace ClientCommand

def id : ClientCommand → Byte
  | .initializeScanner .. => 0
  | .updateAccounts .. => 1

/-- `map_initialize` and `map_account_update`. -/
def entries : ClientCommand → List (ℕ × Option (Value ℕ))
  | .initializeScanner pass threads =>
      [(0, some (.string pass)), (1, some (.unsigned threads))]
  | .updateAccounts users blocks =>
      [(0, trustedArray accountValue users),
        (1, trustedArray (blob 32) blocks)]

def value (command : ClientCommand) : Value ℕ :=
  .object (present command.entries)

def readInitialize (value : Value ℕ) : Except Schema ClientCommand := do
  let fields ← readObject value
  let pass ← required fields 0 readString
  let threads ← required fields 1 (readUnsigned (2 ^ 32))
  .ok (.initializeScanner pass threads)

def readUpdateAccounts (value : Value ℕ) : Except Schema ClientCommand := do
  let fields ← readObject value
  let users ← readTrustedArray fields 0 readAccount
  let blocks ← readTrustedArray fields 1 (readBlob 32)
  .ok (.updateAccounts users blocks)

/-- The reader of the command with this id. -/
def read : ℕ → Option (Value ℕ → Except Schema ClientCommand)
  | 0 => some readInitialize
  | 1 => some readUpdateAccounts
  | _ => none

/-- Values within their types. -/
def Fits : ClientCommand → Prop
  | .initializeScanner _ threads => threads < 2 ^ 32
  | .updateAccounts users blocks =>
      (∀ user ∈ users, AccountFits user) ∧ ∀ block ∈ blocks, block < 256 ^ 32

/-- The command after being sent. -/
def reload : ClientCommand → ClientCommand
  | .initializeScanner pass threads => .initializeScanner pass threads
  | .updateAccounts users blocks =>
      .updateAccounts (users.map reloadAccount) blocks

end ClientCommand

namespace ServerCommand

def id : ServerCommand → Byte
  | .pushAccounts _ => 0
  | .replaceAccounts _ => 1

def users : ServerCommand → List LwsAccount
  | .pushAccounts users | .replaceAccounts users => users

def value (command : ServerCommand) : Value ℕ :=
  .object (present (usersEntries command.users))

def readPushAccounts (value : Value ℕ) : Except Schema ServerCommand := do
  let users ← readUsers value
  .ok (.pushAccounts users)

def readReplaceAccounts (value : Value ℕ) : Except Schema ServerCommand := do
  let users ← readUsers value
  .ok (.replaceAccounts users)

def read : ℕ → Option (Value ℕ → Except Schema ServerCommand)
  | 0 => some readPushAccounts
  | 1 => some readReplaceAccounts
  | _ => none

def Fits (command : ServerCommand) : Prop :=
  ∀ user ∈ command.users, AccountFits user

def reload : ServerCommand → ServerCommand
  | .pushAccounts users => .pushAccounts (users.map reloadAccount)
  | .replaceAccounts users => .replaceAccounts (users.map reloadAccount)

end ServerCommand

/-- `wire::msgpack::from_bytes` of a command; bytes behind it do not
matter. -/
def fromBytes {α : Type} (read : Value ℕ → Except Schema α) (source : Bytes) :
    Except Failure α := do
  let (value, _) ← readValue (maxReadDepth - 1) source
  match read value with
  | .error failure => .error (.schema failure)
  | .ok command => .ok command

/-- A whole message by the reader of its id. -/
def decode {α : Type} (read : ℕ → Option (Value ℕ → Except Schema α))
    (message : Bytes) : Option α :=
  match read (Header.ofBytes (message.take headerSize)).id.val with
  | none => none
  | some read => (fromBytes read (payload message)).toOption

/-! ## Commands are read back -/

theorem decode_message {α : Type}
    {read : ℕ → Option (Value ℕ → Except Schema α)}
    {reader : Value ℕ → Except Schema α} {id : Byte} {value : Value ℕ}
    {bytes : Bytes} {command : α} (known : read id.val = some reader)
    (readable : Readable (maxReadDepth - 1) value)
    (written : message id value = .ok (some bytes))
    (reads : reader value = .ok command) :
    decode read bytes = some command := by
  obtain ⟨-, sameId, body⟩ := message_parts written
  have source := readValue_writeValue readable body []
  rw [List.append_nil] at source
  simp only [decode, sameId, known, fromBytes, source, reads, bind,
    Except.bind, Except.toOption]

theorem readable_users (users : List LwsAccount) {value : Value ℕ}
    (written : trustedArray accountValue users = some value) :
    Readable 98 value :=
  readable_trustedArray (readable_account_at 93) written

theorem writable_users {users : List LwsAccount}
    (fits : ∀ user ∈ users, AccountFits user) :
    (∀ value, trustedArray accountValue users = some value →
        Writable value) ↔
      users.length < 2 ^ 32 ∧ ∀ user ∈ users, Countable user := by
  have each : (∀ user ∈ users, Writable (accountValue user)) ↔
      ∀ user ∈ users, Countable user :=
    forall₂_congr fun user member => writable_account (fits user member)
  rw [← each, trustedArray]
  split
  · rename_i empty
    subst empty
    simp
  · simp

theorem readAccount_written {user : LwsAccount} (fits : AccountFits user)
    (countable : Countable user) :
    readAccount (accountValue user) = .ok (reloadAccount user) := by
  obtain ⟨-, spendable, pubs, spends, outputs⟩ := countable
  apply readAccount_value fits <;> omega

namespace ClientCommand

theorem readable (command : ClientCommand) :
    Readable (maxReadDepth - 1) command.value := by
  show Readable (98 + 1) _
  cases command with
  | initializeScanner pass threads =>
      apply readable_present
      · simp [entries]
      · simp [entries, Readable.string, Readable.unsigned]
  | updateAccounts users blocks =>
      apply readable_present
      · simp [entries]
      · simp only [entries, List.forall_mem_cons]
        refine ⟨fun _ => readable_users users, fun _ written => ?_,
          List.forall_mem_nil _⟩
        exact readable_trustedArray (readable_blob 97 32) written

/-- Less than 2^32 elements in every vector and string. -/
def Countable : ClientCommand → Prop
  | .initializeScanner pass _ => pass.length < 2 ^ 32
  | .updateAccounts users blocks =>
      (users.length < 2 ^ 32 ∧ ∀ user ∈ users, Wire.Countable user) ∧
        blocks.length < 2 ^ 32

theorem writable_iff {command : ClientCommand} (fits : command.Fits) :
    Writable command.value ↔ command.Countable := by
  cases command with
  | initializeScanner pass threads =>
      refine (writable_present (by simp [entries])
        (by simp [entries])).trans ?_
      have small : threads < 2 ^ 64 := Nat.lt_trans fits (by simp)
      simpa [entries, Countable] using fun _ => small
  | updateAccounts users blocks =>
      refine (writable_present (by simp [entries])
        (by simp [entries])).trans ?_
      have hashes := @writable_trustedArray _ (blob 32) blocks fun block _ =>
        writable_blob (by simp) block
      simp only [entries, List.forall_mem_cons, writable_users fits.1, hashes,
        List.not_mem_nil, false_imp_iff, implies_true, and_true, Countable]

theorem read_value {command : ClientCommand} (fits : command.Fits)
    (countable : command.Countable) :
    ∃ reader, read command.id.val = some reader ∧
      reader command.value = .ok command.reload := by
  cases command with
  | initializeScanner pass threads =>
      refine ⟨_, rfl, ?_⟩
      have distinct : ((entries (.initializeScanner pass threads)).map
          Prod.fst).Nodup := by simp [entries]
      simp only [readInitialize, value, readObject, bind, Except.bind,
        required_present distinct (show (0, some (.string pass)) ∈ _ by
          simp [entries]),
        required_present distinct (show (1, some (.unsigned threads)) ∈ _ by
          simp [entries]), readString, readUnsigned_value fits, reload]
  | updateAccounts users blocks =>
      refine ⟨_, rfl, ?_⟩
      obtain ⟨⟨few, rows⟩, hashes⟩ := countable
      have distinct : ((entries (.updateAccounts users blocks)).map
          Prod.fst).Nodup := by simp [entries]
      have usersRead := readTrustedArray_present distinct
        (show (0, trustedArray accountValue users) ∈ _ by simp [entries])
        (by omega) fun user member =>
          readAccount_written (fits.1 user member) (rows user member)
      have blocksRead := @readTrustedArray_present _ _ _ (fun block => block)
        _ _ _ distinct
        (show (1, trustedArray (blob 32) blocks) ∈ _ by simp [entries])
        (by omega) fun block member => readBlob_blob (fits.2 block member)
      simp only [readUpdateAccounts, value, readObject, bind, Except.bind,
        usersRead, blocksRead, List.map_id', reload]

end ClientCommand

namespace ServerCommand

theorem readable (command : ServerCommand) :
    Readable (maxReadDepth - 1) command.value := by
  apply readable_present
  · simp [usersEntries]
  · simp only [usersEntries, List.forall_mem_cons]
    exact ⟨fun _ => readable_users _, List.forall_mem_nil _⟩

def Countable (command : ServerCommand) : Prop :=
  command.users.length < 2 ^ 32 ∧ ∀ user ∈ command.users, Wire.Countable user

theorem writable_iff {command : ServerCommand} (fits : command.Fits) :
    Writable command.value ↔ command.Countable := by
  refine (writable_present (by simp [usersEntries])
    (by simp [usersEntries])).trans ?_
  simp only [usersEntries, List.forall_mem_cons, writable_users fits,
    List.not_mem_nil, false_imp_iff, implies_true, and_true, Countable]

theorem readUsers_value {users : List LwsAccount}
    (fits : ∀ user ∈ users, AccountFits user) (few : users.length < 2 ^ 32)
    (rows : ∀ user ∈ users, Wire.Countable user) :
    readUsers (.object (present (usersEntries users))) =
      .ok (users.map reloadAccount) := by
  have distinct : ((usersEntries users).map Prod.fst).Nodup := by
    simp [usersEntries]
  have usersRead := readTrustedArray_present distinct
    (show (0, trustedArray accountValue users) ∈ _ by simp [usersEntries])
    (by omega) fun user member =>
      readAccount_written (fits user member) (rows user member)
  simp only [readUsers, readObject, bind, Except.bind, usersRead]

theorem read_value {command : ServerCommand} (fits : command.Fits)
    (countable : command.Countable) :
    ∃ reader, read command.id.val = some reader ∧
      reader command.value = .ok command.reload := by
  obtain ⟨few, rows⟩ := countable
  cases command with
  | pushAccounts users =>
      refine ⟨_, rfl, ?_⟩
      have back := readUsers_value fits few rows
      simp only [readPushAccounts, value, ServerCommand.users] at back ⊢
      simp only [back, bind, Except.bind, reload]
  | replaceAccounts users =>
      refine ⟨_, rfl, ?_⟩
      have back := readUsers_value fits few rows
      simp only [readReplaceAccounts, value, ServerCommand.users] at back ⊢
      simp only [back, bind, Except.bind, reload]

end ServerCommand

theorem ClientCommand.decode_sent {command : ClientCommand}
    (fits : command.Fits) {bytes : Bytes}
    (written : message command.id command.value = .ok (some bytes)) :
    decode ClientCommand.read bytes = some command.reload := by
  have countable := (writable_iff fits).mp ⟨_, (message_parts written).2.2⟩
  obtain ⟨reader, known, reads⟩ := read_value fits countable
  exact decode_message known command.readable written reads

theorem ServerCommand.decode_sent {command : ServerCommand}
    (fits : command.Fits) {bytes : Bytes}
    (written : message command.id command.value = .ok (some bytes)) :
    decode ServerCommand.read bytes = some command.reload := by
  have countable := (writable_iff fits).mp ⟨_, (message_parts written).2.2⟩
  obtain ⟨reader, known, reads⟩ := read_value fits countable
  exact decode_message known command.readable written reads

/-! ## Round trips -/

/-- A command that can be written exactly if its parts can be counted, is sent
unless its body is too long, and is sent as a whole message that is read back. -/
structure RoundTrips {α : Type}
    (read : ℕ → Option (Value ℕ → Except Schema α)) (id : Byte)
    (value : Value ℕ) (countable : Prop) (reloaded : α) : Prop where
  written : (∃ body, writeValue value = .ok body) ↔ countable
  sent : ∀ body, writeValue value = .ok body →
    ((∃ bytes, message id value = .ok (some bytes)) ↔ body.length < 2 ^ 32)
  whole : ∀ bytes, message id value = .ok (some bytes) → framing.Message bytes
  back : ∀ bytes, message id value = .ok (some bytes) →
    decode read bytes = some reloaded

/-- What a scanner sends is read back by the main server, and the other way
round, as the same command with its accounts as `reloadAccount` makes them. -/
theorem commands_round_trip {client : ClientCommand} {server : ServerCommand}
    (clientFits : client.Fits) (serverFits : server.Fits) :
    RoundTrips ClientCommand.read client.id client.value client.Countable
        client.reload ∧
      RoundTrips ServerCommand.read server.id server.value server.Countable
        server.reload := by
  constructor
  · exact
      { written := client.writable_iff clientFits
        sent := fun _ => message_isOk
        whole := fun _ sent => (message_parts sent).1
        back := fun _ => client.decode_sent clientFits }
  · exact
      { written := server.writable_iff serverFits
        sent := fun _ => message_isOk
        whole := fun _ sent => (message_parts sent).1
        back := fun _ => server.decode_sent serverFits }

/-- The body of a message. -/
def bodyOf (value : Value ℕ) : Bytes := (writeValue value).toOption.getD []

/-- An account that received one output. -/
def paidAccount : LwsAccount :=
  .ofParts ⟨[97], 1, ⟨3, 100⟩, 3⟩ [(⟨0, 6⟩, ⟨0, 3⟩)] [20] [] [sampleReceived] 5

theorem paidAccount_fits : AccountFits paidAccount where
  id := by decide
  viewPublic := by decide
  spendPublic := by decide
  viewKey := by decide
  height := by decide
  spendable := by
    intro row member
    obtain rfl := List.mem_singleton.mp member
    constructor <;> constructor <;> decide
  pubs := by decide
  spends := List.forall_mem_nil _
  outputs := by
    intro output member
    obtain rfl := List.mem_singleton.mp member
    constructor <;> decide

def pushOne : ServerCommand := .pushAccounts [paidAccount]

def pushOneMessage : Bytes := Header.bytes ⟨0, 0, 344⟩ ++ bodyOf pushOne.value

set_option maxRecDepth 20000 in
theorem pushOne_written :
    message pushOne.id pushOne.value = .ok (some pushOneMessage) := rfl

theorem pushOne_fits : pushOne.Fits :=
  List.forall_mem_singleton.mpr paidAccount_fits

def updateOne : ClientCommand := .updateAccounts [paidAccount] [7]

def updateOneMessage : Bytes :=
  Header.bytes ⟨0, 1, 380⟩ ++ bodyOf updateOne.value

set_option maxRecDepth 20000 in
theorem updateOne_written :
    message updateOne.id updateOne.value = .ok (some updateOneMessage) := rfl

theorem updateOne_fits : updateOne.Fits :=
  ⟨List.forall_mem_singleton.mpr paidAccount_fits, by decide⟩

/-- The account goes to a scanner and comes back with its output. -/
theorem commands_round_trip_paid :
    decode ServerCommand.read pushOneMessage = some pushOne ∧
      decode ClientCommand.read updateOneMessage = some updateOne ∧
      RoundTrips ClientCommand.read updateOne.id updateOne.value
        updateOne.Countable updateOne.reload ∧
      RoundTrips ServerCommand.read pushOne.id pushOne.value pushOne.Countable
        pushOne.reload := by
  obtain ⟨update, push⟩ := commands_round_trip updateOne_fits pushOne_fits
  exact ⟨push.back _ pushOne_written, update.back _ updateOne_written, update,
    push⟩

end XfoLws.Scanner
