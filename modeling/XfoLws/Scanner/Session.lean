import XfoLws.Scanner.Link
import XfoLws.Scanner.RemoteClient

/-!
# Sessions of remote scanners

The commands of the two ends of a connection: `server_connection` takes
`initialize` once, with the right password, and passes updates on to the
server; a scanner divides accounts over its queues.
-/

namespace XfoLws.Scanner

open Db Wire Msgpack

/-! ## Calls -/

/-- `call`: what was read is unpacked for the handler. -/
def call {α σ : Type} (read : Value ℕ → Except Schema α)
    (handle : σ → α → σ × Bool) (self : σ) (readBuf : Bytes) : σ × Bool :=
  match fromBytes read readBuf with
  | .error _ => (self, false)
  | .ok data => handle self data

/-- What a connection of a scanner dispatches to the server. -/
inductive ServerCall where
  | replaceUsers
  | store (users : List LwsAccount) (blocks : List Hash)

/-- `server_connection`, with the calls it made. -/
structure ServerConnection where
  threads : ℕ
  calls : List ServerCall

namespace ServerConnection

def new : ServerConnection := ⟨0, []⟩

/-- `initialize_handler` and `update_accounts_handler`. -/
def handle (checkPass : Bytes → Bool) (self : ServerConnection) :
    ClientCommand → ServerConnection × Bool
  | .initializeScanner pass threads =>
      if self.threads ≠ 0 then (self, false)
      else if threads = 0 then (self, false)
      else if ¬ checkPass pass then (self, false)
      else
        ({ self with
          threads := threads
          calls := self.calls ++ [.replaceUsers] }, true)
  | .updateAccounts users blocks =>
      if users = [] then (self, true)
      else ({ self with calls := self.calls ++ [.store users blocks] }, true)

/-- `server_connection::commands`. -/
def commands (checkPass : Bytes → Bool) : Callables ServerConnection :=
  [call ClientCommand.readInitialize (handle checkPass),
    call ClientCommand.readUpdateAccounts (handle checkPass)]

end ServerConnection

/-- `client::commands`. -/
def Client.commands : Callables Client :=
  [call ServerCommand.readPushAccounts Client.handle,
    call ServerCommand.readReplaceAccounts Client.handle]

/-! ## Messages as commands -/

section Typed

variable {α σ : Type} {commands : Callables σ}
  {read : ℕ → Option (Value ℕ → Except Schema α)} {handle : σ → α → σ × Bool}

/-- The callables are the handler behind the readers of a table. -/
def Handles (commands : Callables σ)
    (read : ℕ → Option (Value ℕ → Except Schema α))
    (handle : σ → α → σ × Bool) : Prop :=
  ∀ id : ℕ, commands[id]? = (read id).map fun reader => call reader handle

theorem Handles.serve (table : Handles commands read handle) (owner : σ)
    (message : Bytes) :
    serve commands owner message =
      match decode read message with
      | none => (owner, false)
      | some command => handle owner command := by
  unfold Scanner.serve decode
  rw [table]
  cases read (Header.ofBytes (message.take headerSize)).id.val with
  | none => rfl
  | some reader =>
      simp only [Option.map_some, call]
      cases fromBytes reader (payload message) <;> rfl

/-- The handler goes over commands. -/
theorem Handles.served (table : Handles commands read handle)
    {messages : List Bytes} {decoded : List α}
    (each : List.Forall₂ (fun message command =>
      decode read message = some command) messages decoded) (owner : σ) :
    served commands owner messages =
      decoded.foldl (fun owner command => (handle owner command).1) owner := by
  induction each generalizing owner with
  | nil => rfl
  | cons here _ induction =>
      have step := table.serve owner
      rw [Scanner.served, List.foldl_cons, List.foldl_cons]
      rw [step, here]
      exact induction _

end Typed

theorem ServerConnection.handles (checkPass : Bytes → Bool) :
    Handles (commands checkPass) ClientCommand.read (handle checkPass) := by
  intro id
  match id with
  | 0 => rfl
  | 1 => rfl
  | _ + 2 => rfl

theorem Client.handles :
    Handles Client.commands ServerCommand.read Client.handle := by
  intro id
  match id with
  | 0 => rfl
  | 1 => rfl
  | _ + 2 => rfl

/-! ## Who is handed accounts -/

namespace ServerCall

def isReplace : ServerCall → Bool
  | .replaceUsers => true
  | .store .. => false

/-- The update that is stored. -/
def update : ServerCall → Option (List LwsAccount × List Hash)
  | .replaceUsers => none
  | .store users blocks => some (users, blocks)

end ServerCall

/-- The update of a message, unless it is empty. -/
def updateOf (message : Bytes) : Option (List LwsAccount × List Hash) :=
  match decode ClientCommand.read message with
  | some (.updateAccounts users blocks) =>
      if users = [] then none else some (users, blocks)
  | _ => none

namespace ServerConnection

variable {checkPass : Bytes → Bool} {self : ServerConnection}

/-- The messages that the connection handled, and what came of them. -/
structure Accounts (checkPass : Bytes → Bool) (messages : List Bytes)
    (connection : ServerConnection) : Prop where
  stored : connection.calls.filterMap ServerCall.update =
    messages.filterMap updateOf
  replaced : connection.calls.countP ServerCall.isReplace =
    if connection.threads = 0 then 0 else 1
  authenticated : connection.threads ≠ 0 → ∃ message ∈ messages, ∃ pass,
    decode ClientCommand.read message =
      some (.initializeScanner pass connection.threads) ∧ checkPass pass = true

theorem Accounts.serve {messages : List Bytes}
    (accounts : Accounts checkPass messages self) (message : Bytes) :
    Accounts checkPass (messages ++ [message])
      (Scanner.serve (commands checkPass) self message).1 := by
  have stored := accounts.stored
  have kept : updateOf message = none →
      Accounts checkPass (messages ++ [message]) self := by
    intro silent
    refine ⟨?_, accounts.replaced, fun some => ?_⟩
    · simpa [silent] using stored
    · obtain ⟨other, member, found⟩ := accounts.authenticated some
      exact ⟨other, List.mem_append_left _ member, found⟩
  rw [(handles checkPass).serve]
  cases found : decode ClientCommand.read message with
  | none => exact kept (by simp [updateOf, found])
  | some command =>
      dsimp only
      cases command with
      | initializeScanner pass threads =>
          have silent : updateOf message = none := by simp [updateOf, found]
          unfold handle
          dsimp only
          split
          · exact kept silent
          · split
            · exact kept silent
            · split
              · exact kept silent
              · rename_i fresh some valid
                refine ⟨?_, ?_, fun _ => ?_⟩
                · simpa [silent, List.filterMap_cons, ServerCall.update] using stored
                · have none := accounts.replaced
                  rw [if_pos (not_not.mp fresh)] at none
                  rw [List.countP_append, none, if_neg some]
                  rfl
                · exact ⟨message, by simp, pass, found, by simpa using valid⟩
      | updateAccounts users blocks =>
          unfold handle
          dsimp only
          split
          · rename_i empty
            exact kept (by simp [updateOf, found, empty])
          · rename_i several
            have update : updateOf message = some (users, blocks) := by
              simp [updateOf, found, several]
            refine ⟨?_, ?_, fun some => ?_⟩
            · simp [stored, update, ServerCall.update]
            · rw [List.countP_append, accounts.replaced]
              rfl
            · obtain ⟨other, member, found⟩ := accounts.authenticated some
              exact ⟨other, List.mem_append_left _ member, found⟩

theorem accounts_served (messages : List Bytes) :
    Accounts checkPass messages
      (Scanner.served (commands checkPass) .new messages) := by
  induction messages using List.reverseRecOn with
  | nil => exact ⟨rfl, rfl, fun some => absurd rfl some⟩
  | append_singleton messages message induction =>
      rw [Scanner.served, List.foldl_append]
      exact induction.serve message

/-- Whatever bytes a remote sends, in every run the server replaces its users
for it once if it gave the right password, and never otherwise; and every
update that is not empty is stored once, in order, even of a remote that gave
no password. -/
theorem remote_authenticated {events : List ConnectionEvent}
    {connection : Connection ServerConnection}
    (run : Run (Connection.Step (commands checkPass)) (.start .new) events
      connection) :
    (connection.owner.threads = 0 ∨ ∃ message ∈ connection.handled, ∃ pass,
        decode ClientCommand.read message =
          some (.initializeScanner pass connection.owner.threads) ∧
        checkPass pass = true) ∧
      connection.owner.calls.countP ServerCall.isReplace =
        (if connection.owner.threads = 0 then 0 else 1) ∧
      connection.owner.calls.filterMap ServerCall.update =
        connection.handled.filterMap updateOf := by
  have sound := (Connection.run_sound run).2
  have accounts := @accounts_served checkPass connection.handled
  rw [← sound.replayed] at accounts
  refine ⟨?_, accounts.replaced, accounts.stored⟩
  by_cases none : connection.owner.threads = 0
  · exact .inl none
  · exact .inr (accounts.authenticated none)

theorem run_command {remote : Connection ServerConnection}
    (waits : remote.Waits) {command : ClientCommand}
    (fits : command.Fits) {bytes : Bytes}
    (written : message command.id command.value = .ok (some bytes))
    (accepted : (handle checkPass remote.owner command.reload).2 = true) :
    ∃ events next, Run (Connection.Step (commands checkPass)) remote events
        next ∧
      next.Waits ∧
      next.owner = (handle checkPass remote.owner command.reload).1 := by
  have served := (handles checkPass).serve remote.owner bytes
  rw [command.decode_sent fits written] at served
  obtain ⟨next, run, waiting, owner, -⟩ := Connection.run_receive waits
    (message_parts written).1 (by rw [served]; exact accepted)
  exact ⟨_, next, run, waiting, by rw [owner, served]⟩

def initializeOne : ClientCommand := .initializeScanner [112] 2

def initializeOneMessage : Bytes :=
  Header.bytes ⟨0, 0, 6⟩ ++ bodyOf initializeOne.value

set_option maxRecDepth 20000 in
private theorem initializeOne_written :
    message initializeOne.id initializeOne.value =
      .ok (some initializeOneMessage) := rfl

private theorem initializeOne_fits : initializeOne.Fits := by
  norm_num [ClientCommand.Fits, initializeOne]

/-- A remote that gives its password, and then sends an update. -/
theorem remote_authenticated_once :
    ∃ connection : Connection ServerConnection,
      connection.owner = ⟨2, [.replaceUsers, .store [paidAccount] [7]]⟩ ∧
        (∃ message ∈ connection.handled, ∃ pass,
          decode ClientCommand.read message =
            some (.initializeScanner pass 2) ∧ pass = [112]) ∧
        connection.owner.calls.countP ServerCall.isReplace = 1 ∧
        [([paidAccount], [7])] = connection.handled.filterMap updateOf := by
  have start := @Connection.waits_start _ ServerConnection.new
  obtain ⟨_, first, opened, waits, owner⟩ := @run_command (· == [112]) _
    start initializeOne initializeOne_fits _ initializeOne_written rfl
  obtain ⟨_, second, updated, -, stored⟩ := @run_command (· == [112]) _
    waits _ updateOne_fits _ updateOne_written (by rw [owner]; rfl)
  have held : second.owner =
      ⟨2, [.replaceUsers, .store [paidAccount] [7]]⟩ := by
    rw [stored, owner]
    rfl
  obtain ⟨entered, once, all⟩ := remote_authenticated (opened.append updated)
  rw [held] at entered once all
  refine ⟨second, held, ?_, by simpa [held] using once, all⟩
  simpa using entered

end ServerConnection

/-! ## Both directions -/

/-- What `write_command` made of a command. -/
def ClientCommand.Sent (bytes : Bytes) (command : ClientCommand) : Prop :=
  command.Fits ∧ message command.id command.value = .ok (some bytes)

def ServerCommand.Sent (bytes : Bytes) (command : ServerCommand) : Prop :=
  command.Fits ∧ message command.id command.value = .ok (some bytes)

theorem sent_prefix {α : Type} {sent : Bytes → α → Prop}
    {handled queued : List Bytes} {commands : List α}
    (all : List.Forall₂ sent queued commands) (start : handled <+: queued) :
    ∃ done, done <+: commands ∧ List.Forall₂ sent handled done ∧
      (handled = queued → done = commands) := by
  obtain ⟨rest, rfl⟩ := start
  have first := List.forall₂_take handled.length all
  rw [List.take_left] at first
  refine ⟨_, List.take_prefix _ _, first, fun same => ?_⟩
  have none : rest = [] := by simpa using same
  subst none
  have size := all.length_eq
  rw [List.append_nil] at size
  rw [size, List.take_length]

section Sessions

variable {checkPass : Bytes → Bool} {locals : ℕ} {events : List Link.Event}
  {link : Link Client ServerConnection}

/-- In every run the local queues of a scanner hold the accounts that the
commands it has handled so far, `done`, assign to it, as they are after being
sent: each account in one queue, and no queue with more than one account more
than another.  Once everything is settled these are all the commands. -/
theorem scanner_holds_accounts (some : 0 < locals)
    (run : Run (Link.Step Client.commands (ServerConnection.commands checkPass))
      (Link.start (.new locals) .new) events link)
    {commands : List ServerCommand}
    (sent : List.Forall₂ ServerCommand.Sent link.server.queued commands) :
    ∃ done, List.Forall₂ ServerCommand.Sent link.client.handled done ∧
      done <+: commands ∧ (link.Open → link.Settled → done = commands) ∧
      link.client.owner.allGiven.Perm
        ((done.foldl assignCommand []).map reloadAccount) ∧
      ∀ first < locals, ∀ second < locals,
        (link.client.owner.given first).length ≤
          (link.client.owner.given second).length + 1 := by
  have sound := Link.run_sound run
  obtain ⟨done, start, handled, all⟩ :=
    sent_prefix sent sound.toClient.handled_prefix
  have decoded : List.Forall₂ (fun message command =>
      decode ServerCommand.read message = Option.some command)
        link.client.handled (done.map ServerCommand.reload) := by
    rw [List.forall₂_map_right_iff]
    exact handled.imp fun bytes command sent => command.decode_sent sent.1 sent.2
  have owner := sound.toClient.reads.replayed
  rw [Client.handles.served decoded] at owner
  have holds := @Client.run_holds _ (done.map ServerCommand.reload) _
    (Client.new_holds some)
  have size := @Client.run_locals (.new locals)
    (done.map ServerCommand.reload)
  have assigned := assignCommand_reload done []
  rw [List.map_nil] at assigned
  rw [← owner] at holds size
  rw [assigned] at holds
  refine ⟨done, handled, start, fun isOpen settled => all ?_, holds.once, ?_⟩
  · exact (settled.resolve_right fun ended => ended isOpen).2
  · intro first firstLocal second secondLocal
    exact holds.level.balanced (by rwa [size]) (by rwa [size])

end Sessions

set_option maxRecDepth 20000 in
private theorem pushOne_completed :
    completeCommand 0 (List.replicate headerSize 0 ++ bodyOf pushOne.value) =
      some pushOneMessage := rfl

/-- An account that was pushed to two queues. -/
theorem scanner_holds_pushed_account :
    ∃ (link : Link Client ServerConnection) (done : List ServerCommand),
      link.client.owner.allGiven = [paidAccount] ∧
        List.Forall₂ ServerCommand.Sent link.client.handled done ∧
        link.client.owner.allGiven.Perm
          ((done.foldl assignCommand []).map reloadAccount) := by
  have served := Client.handles.serve (.new 2) pushOneMessage
  rw [pushOne.decode_sent pushOne_fits pushOne_written] at served
  obtain ⟨_, link, run, queued, owner⟩ := @Link.reaches_client _ _ _
    (ServerConnection.commands fun _ => true) _ .new _ _ _ pushOne_completed
    (congrArg Prod.snd served)
  have held : link.client.owner.allGiven = [paidAccount] := by
    rw [owner, served]
    rfl
  have sent : List.Forall₂ ServerCommand.Sent link.server.queued [pushOne] := by
    rw [queued]
    exact .cons ⟨pushOne_fits, pushOne_written⟩ .nil
  obtain ⟨done, handled, -, -, once, -⟩ :=
    scanner_holds_accounts (by decide) run sent
  exact ⟨link, done, held, handled, once⟩

section Sessions

variable {checkPass : Bytes → Bool} {locals : ℕ} {events : List Link.Event}
  {link : Link Client ServerConnection}

/-- The updates that are not empty, as they are after being sent. -/
def ClientCommand.update : ClientCommand →
    Option (List LwsAccount × List Hash)
  | .initializeScanner .. => none
  | .updateAccounts users blocks =>
      if users = [] then none else some (users.map reloadAccount, blocks)

/-- In every run the server has stored the updates of the commands that it has
handled so far, `done`, each once and in order.  Once everything is settled
these are all the commands. -/
theorem server_stores_updates
    (run : Run (Link.Step Client.commands (ServerConnection.commands checkPass))
      (Link.start (.new locals) .new) events link)
    {commands : List ClientCommand}
    (sent : List.Forall₂ ClientCommand.Sent link.client.queued commands) :
    ∃ done, List.Forall₂ ClientCommand.Sent link.server.handled done ∧
      done <+: commands ∧ (link.Open → link.Settled → done = commands) ∧
      link.server.owner.calls.filterMap ServerCall.update =
        done.filterMap ClientCommand.update := by
  have sound := Link.run_sound run
  obtain ⟨done, start, handled, all⟩ :=
    sent_prefix sent sound.toServer.handled_prefix
  have stored := (@ServerConnection.accounts_served checkPass
    link.server.handled).stored
  rw [← sound.toServer.reads.replayed] at stored
  refine ⟨done, handled, start, fun isOpen settled => all ?_, ?_⟩
  · exact (settled.resolve_right fun ended => ended isOpen).1
  · rw [stored]
    clear all stored start
    generalize link.server.handled = messages at handled ⊢
    induction handled with
    | nil => rfl
    | @cons bytes command _ _ here _ induction =>
        have same : updateOf bytes = command.update := by
          unfold updateOf
          rw [command.decode_sent here.1 here.2]
          cases command with
          | initializeScanner => rfl
          | updateAccounts users blocks =>
              simp [ClientCommand.reload, ClientCommand.update]
        rw [List.filterMap_cons, List.filterMap_cons, same, induction]

end Sessions

set_option maxRecDepth 20000 in
private theorem updateOne_completed :
    completeCommand 1 (List.replicate headerSize 0 ++ bodyOf updateOne.value) =
      some updateOneMessage := rfl

/-- An update that is stored although no password was given. -/
theorem server_stores_update :
    ∃ (link : Link Client ServerConnection) (done : List ClientCommand),
      link.server.owner = ⟨0, [.store [paidAccount] [7]]⟩ ∧
        List.Forall₂ ClientCommand.Sent link.server.handled done ∧
        link.server.owner.calls.filterMap ServerCall.update =
          done.filterMap ClientCommand.update := by
  have served :=
    (ServerConnection.handles fun _ => false).serve .new updateOneMessage
  rw [updateOne.decode_sent updateOne_fits updateOne_written] at served
  obtain ⟨_, link, run, queued, owner⟩ := @Link.reaches_server _ _
    Client.commands _ (.new 2) _ _ _ _ updateOne_completed
    (congrArg Prod.snd served)
  have held : link.server.owner = ⟨0, [.store [paidAccount] [7]]⟩ := by
    rw [owner, served]
    rfl
  have sent : List.Forall₂ ClientCommand.Sent link.client.queued
      [updateOne] := by
    rw [queued]
    exact .cons ⟨updateOne_fits, updateOne_written⟩ .nil
  obtain ⟨done, handled, -, -, stored⟩ := server_stores_updates run sent
  exact ⟨link, done, held, handled, stored⟩

end XfoLws.Scanner
