import Hyperspace.RemoteCorestore

namespace Hyperspace

/-!
# Opening a core from the command line

`async_main` of `client/src/bin.rs` opens a core by the key or by the name that
it is given; a key takes precedence.  The key is text that `hex::decode` reads.
When a core has been opened, its key is printed as `hex::encode` writes it.

This module has the choice that `async_main` makes with its errors.  The key
that is printed opens the same core again, if what `hex::encode` writes is read
back by `hex::decode`.
-/

namespace ClientMain

open RemoteCorestore (Asked Answer Honest requestedKey)

/-- The options of the command line that name a core. -/
structure Opts where
  key : Option String
  name : Option String
  deriving Repr, DecidableEq

section

variable (decode : String → Option Bytes)

/-- The core that `async_main` opens, or the error that it returns. -/
def select (opts : Opts) : Except String Asked :=
  match opts.key, opts.name with
  | some key, _ =>
      match decode key with
      | none => .error "Invalid key"
      | some bytes =>
          if bytes.length ≠ 32 then
            .error
              ("Invalid key: Must be 32 bytes long, not " ++
                toString bytes.length ++ ".")
          else
            .ok (.byKey bytes)
  | none, some name => .ok (.byName name)
  | none, none => .error "Either key or name is required"

/--
The beginning of `async_main`: a new client opens the core, and the key is
printed.  An open core without a key would make the process panic.
-/
def openCore
    [Hex]
    (answer : Answer)
    (opts : Opts) : Except String String :=
  match select decode opts with
  | .error message => .error message
  | .ok asked =>
      match RemoteCorestore.new.call ⟨asked, answer⟩ with
      | (_, .error message) => .error message
      | (store, .ok core) =>
          match (store.cores core).key with
          | none => .error "panicked"
          | some key => .ok (Hex.encode key)

end

section

variable
  {decode : String → Option Bytes}

/-- A text is taken for a key when it decodes to 32 bytes. -/
theorem select_key_iff
    {text : String}
    {name : Option String}
    {asked : Asked} :
    select decode ⟨some text, name⟩ = .ok asked ↔
      ∃ bytes,
        decode text = some bytes ∧
          bytes.length = 32 ∧
          asked = .byKey bytes := by
  cases decoded : decode text with
  | none =>
      simp [select, decoded]
  | some bytes =>
      by_cases isLong : bytes.length = 32
      · simp [select, decoded, isLong, eq_comm]
      · simp [select, decoded, isLong]

/-- The core selected has a key of 32 bytes. -/
theorem length_feedKey_of_select
    {serverKey : String → Bytes}
    (keysFit : ∀ name, (serverKey name).length = 32)
    {opts : Opts}
    {asked : Asked}
    (selected : select decode opts = .ok asked) :
    (asked.feedKey serverKey).length = 32 := by
  match opts, selected with
  | ⟨some key, other⟩, selected =>
      obtain ⟨bytes, _, isLong, rfl⟩ := select_key_iff.mp selected
      exact isLong
  | ⟨none, some name⟩, selected =>
      cases selected
      exact keysFit name
  | ⟨none, none⟩, selected =>
      cases selected

variable
  [Hex]
  {serverKey : String → Bytes}
  {answer : Answer}

/-- A new client that opens a core of an honest server gets its key. -/
theorem call_new
    (honest : Honest serverKey answer)
    (asked : Asked) :
    ∃ store core,
      RemoteCorestore.new.call ⟨asked, answer⟩ = (store, .ok core) ∧
        (store.cores core).key = some (asked.feedKey serverKey) := by
  cases asked with
  | byKey key =>
      obtain ⟨record, _, hasKey, after⟩ :=
        RemoteCorestore.openByKey_fresh .new key honest rfl
      refine ⟨_, _, after, ?_⟩
      simp only [Function.update_self]
      exact hasKey
  | byName name =>
      obtain ⟨record, _, hasKey, after⟩ :=
        RemoteCorestore.openByName_fresh .new name honest rfl
      refine ⟨_, _, after, ?_⟩
      simp only [Function.update_self]
      exact hasKey

/-- What is printed is the text of the key of the core selected. -/
theorem openCore_eq_ok_iff
    (honest : Honest serverKey answer)
    {opts : Opts}
    {printed : String} :
    openCore decode answer opts = .ok printed ↔
      ∃ asked,
        select decode opts = .ok asked ∧
          printed = Hex.encode (asked.feedKey serverKey) := by
  rw [openCore]
  cases selected : select decode opts with
  | error message =>
      simp
  | ok asked =>
      obtain ⟨store, core, called, hasKey⟩ := call_new honest asked
      simp [called, hasKey, eq_comm]

/--
The key that is printed for a core, however it was named, opens that core again,
whatever name is given with it.
-/
theorem printed_key_opens_same_core
    (decodes : ∀ bytes, decode (Hex.encode bytes) = some bytes)
    (honest : Honest serverKey answer)
    (keysFit : ∀ name, (serverKey name).length = 32)
    {opts : Opts}
    {printed : String}
    (opened : openCore decode answer opts = .ok printed)
    (name : Option String) :
    openCore decode answer ⟨some printed, name⟩ = .ok printed := by
  obtain ⟨asked, selected, isPrinted⟩ :=
    (openCore_eq_ok_iff honest).mp opened
  have selectedAgain :
      select decode ⟨some printed, name⟩ =
        .ok (.byKey (asked.feedKey serverKey)) := by
    refine select_key_iff.mpr ⟨_, ?_,
      length_feedKey_of_select keysFit selected, rfl⟩
    rw [isPrinted]
    exact decodes _
  exact (openCore_eq_ok_iff honest).mpr ⟨_, selectedAgain, isPrinted⟩

end

end ClientMain

end Hyperspace
