import CapyAmqp.Broker.Ownership

/-!
# Directory — the pointers to listeners

The part of a broker that decides which listener a callback reaches: `listeners_`, the slots of
the connections, and the ids whose callbacks are registered.  `Directory.step` says in one place
what each event does to it, and `step_directory` that the broker's code does just that.
-/

namespace CapyAmqp

open Lib

variable {H : Type}

/-- Where listeners are found. -/
structure Directory where
  listeners : Table String Ptr
  channels : Table String ThreadId
  slot : ThreadId → Option Ptr

namespace Directory

/-- A new listener `p` of the thread, under the id. -/
def enter (d : Directory) (id : String) (p : Ptr) (thread : ThreadId) : Directory :=
  { listeners := d.listeners.set id p
    channels := d.channels.set id thread
    slot := Function.update d.slot thread (some p) }

/-- `reset_deferred` on the thread. -/
def clear (d : Directory) (thread : ThreadId) : Directory :=
  { d with slot := Function.update d.slot thread none }

/-- The listener is deleted, after `reset_deferred` on the thread. -/
def remove (d : Directory) (id : String) (thread : ThreadId) : Directory :=
  { d.clear thread with listeners := d.listeners.del id }

/-- What an event does to the directory; `id` and `p` are the next id and the next pointer. -/
def step (codec : Codec) (id : String) (p : Ptr) (d : Directory) : Event H → Directory
  | .listenMessages thread _ _ _ => d.enter id p thread
  | .listenCallback thread _ (.received message _ _) =>
      match codec.fromMsgpack message.body with
      | .error _ => d
      | .ok _ => d.clear thread
  | .listenCallback thread id' (.consumeError _) => d.remove id' thread
  | _ => d

end Directory

namespace BrokerImpl

def directory (b : BrokerImpl H) : Directory :=
  { listeners := b.listeners
    channels := b.listenChannels
    slot := b.slot }

theorem directory_of_eq {b b' : BrokerImpl H} (hlisteners : b'.listeners = b.listeners)
    (hchannels : b'.listenChannels = b.listenChannels)
    (hslot : ∀ thread, b'.slot thread = b.slot thread) : b'.directory = b.directory := by
  have hslots : b'.slot = b.slot := funext hslot
  simp only [directory, hlisteners, hchannels, hslots]

theorem Aside.directory {b b' : BrokerImpl H} {as : List (Action H)} (h : Aside b as b') :
    b'.directory = b.directory :=
  directory_of_eq h.listeners h.listenChannels h.slot

theorem OnReplays.directory {b b' : BrokerImpl H} {as : List (Action H)} (h : OnReplays b as b') :
    b'.directory = b.directory :=
  directory_of_eq h.listeners h.listenChannels h.slot

theorem OnObjects.directory {b b' : BrokerImpl H} {as : List (Action H)} (h : OnObjects b as b') :
    b'.directory = b.directory :=
  directory_of_eq h.listeners h.listenChannels h.slot

/-! ## Statements on the directory -/

theorem slot_assignSlot (b : BrokerImpl H) (thread : ThreadId) (p : Option Ptr) :
    (b.assignSlot thread p).slot = Function.update b.slot thread p := by
  funext thread'
  by_cases ht : thread' = thread
  · subst ht
    simp
  · rw [slot_assignSlot_of_ne _ _ ht, Function.update_of_ne ht]

theorem directory_setDeferred {thread : ThreadId} {p : Option Ptr} {b b' : BrokerImpl H}
    {as : List (Action H)} (h : setDeferred thread p b = .ok (b', as)) :
    b'.directory = { b.directory with slot := Function.update b.slot thread p } := by
  have hchannels := (onListeners_assignSlot b thread p).listenChannels
  rw [(setDeferred_cases h).directory]
  simp only [directory, listeners_assignSlot, slot_assignSlot, hchannels]

theorem directory_listenDel {id : String} {b b' : BrokerImpl H} {as : List (Action H)}
    (h : listenDel id b = .ok (b', as)) :
    b'.directory = { b.directory with listeners := b.listeners.del id } := by
  rcases listenDel_ok_iff.1 h with ⟨hnone, rfl, rfl⟩ | ⟨q, _, h⟩
  · -- deleting an absent id changes nothing
    have hsame : b'.listeners.del id = b'.listeners := by
      funext k
      by_cases hk : k = id
      · subst hk
        exact (Table.get_del_self _ _).trans hnone.symm
      · exact Table.get_del_of_ne _ hk
    simp only [directory, hsame]
  · rw [(onObjects_release _ _ _ _ h).directory]
    rfl

theorem directory_consumeError {thread : ThreadId} {id message : String} {b b' : BrokerImpl H}
    {as : List (Action H)}
    (h : Prog.all
      [resetDeferred thread,
        listenReport id (.error (.broker .queueConsuming message)),
        listenDel id] b = .ok (b', as)) :
    b'.directory = b.directory.remove id thread := by
  rcases Prog.seq_ok_iff.1 h with ⟨b₁, _, _, hreset, hrest, _⟩
  rcases Prog.seq_ok_iff.1 hrest with ⟨b₂, _, _, hreport, hrest', _⟩
  rcases Prog.seq_ok_iff.1 hrest' with ⟨b₃, _, _, hdel, hskip, _⟩
  have hb₁ : b₁.directory = b.directory.clear thread := directory_setDeferred hreset
  have hb₂ : b₂.directory = b₁.directory := (onObjects_listenReport _ _ _ _ _ hreport).directory
  calc b'.directory
      = b₃.directory := by rw [(Prog.skip_ok_iff.1 hskip).1]
    _ = { b₂.directory with listeners := b₂.directory.listeners.del id } := directory_listenDel hdel
    _ = b.directory.remove id thread := by
          rw [hb₂, hb₁]
          rfl

theorem directory_listenDispatch {id : String} {message : Message} {received : Json}
    {throws : Option Thrown} {b b' : BrokerImpl H} {as : List (Action H)}
    (h : listenDispatch id message received throws b = .ok (b', as)) :
    b'.directory = b.directory :=
  (onObjects_listenReportData _ _ _ _ _ _ h).directory

theorem directory_listenReceived {codec : Codec} {thread : ThreadId} {id : String}
    {message : Message} {deliveryTag : Nat} {throws : Option Thrown} {b b' : BrokerImpl H}
    {as : List (Action H)} {next : String} {p : Ptr}
    (h : listenReceived codec thread id message deliveryTag throws b = .ok (b', as)) :
    b'.directory =
      b.directory.step codec next p
        (.listenCallback thread id (.received message deliveryTag throws) : Event H) := by
  rcases listenReceived_ok_iff.1 h with ⟨b₁, _, _, hack, _, hrest⟩
  have hb₁ : b₁.directory = b.directory := (onObjects_listenAck _ _ _ _ _ hack).directory
  rcases hrest with ⟨thrown, hdecode, herror⟩ | ⟨received, b₂, _, _, hdecode, hreset, hdispatch, _⟩
  · have hreport := (onObjects_listenReport _ _ _ _ _ herror).directory
    simpa only [Directory.step, hdecode] using hreport.trans hb₁
  · -- the slot of the thread's connection is emptied, and the dispatch keeps the directory
    have hb₂ : b₂.directory = b₁.directory.clear thread := directory_setDeferred hreset
    rw [directory_listenDispatch hdispatch, hb₂, hb₁]
    simp only [Directory.step, hdecode]

theorem directory_newListener (b : BrokerImpl H) (thread : ThreadId) (id : String)
    (failed : Bool) :
    (b.newListener thread id failed).1.directory =
      { listeners := b.listeners.set id b.listening.next
        channels := b.listenChannels.set id thread
        slot := b.slot } := by
  have hget := aside_getConnection b thread
  have hslot : (b.getConnection thread).slot = b.slot := funext hget.slot
  simp only [newListener, directory, hget.listeners, hget.listening, hget.listenChannels,
    Heap.alloc_snd]
  congr 1

theorem directory_listenMessages {codec : Codec} {thread : ThreadId} {queue : String}
    {keys : List String} {failed : Bool} {b b' : BrokerImpl H} {as : List (Action H)}
    (h : listenMessages thread queue keys failed b = .ok (b', as)) :
    b'.directory =
      b.directory.step codec (idText b.uniqueId) b.listening.next
        (.listenMessages thread queue keys failed : Event H) := by
  rcases listenMessages_ok_iff.1 h with ⟨_, h⟩
  rcases Prog.seq_ok_iff.1 h with ⟨b₂, _, _, hset, hissue, _⟩
  let b₁ := (b.incrementId.newListener thread (idText b.uniqueId) failed).1
  have hnew : b₁.directory = _ := directory_newListener b.incrementId thread _ failed
  -- the pointer of the new listener is the frontier of the heap before the call
  have hpointer : (b.incrementId.newListener thread (idText b.uniqueId) failed).2 =
      b.listening.next :=
    congrArg Heap.next (aside_getConnection b.incrementId thread).listening
  have hb₂ : b₂.directory =
      { b₁.directory with
        slot := Function.update b₁.slot thread (some b.listening.next) } :=
    hpointer ▸ directory_setDeferred hset
  have hslot : b₁.slot = b.slot := congrArg Directory.slot hnew
  cases hissue
  rw [hb₂, hnew, hslot]
  rfl

/-- The broker refines the directory. -/
theorem step_directory {codec : Codec} {b b' : BrokerImpl H} {e : Event H} {as : List (Action H)}
    (h : step codec b e = .ok (b', as)) :
    b'.directory = b.directory.step codec (idText b.uniqueId) b.listening.next e := by
  cases e with
  | listenMessages thread queue keys failed =>
      exact directory_listenMessages h
  | listenRegister p r =>
      exact (onObjects_listenRegister _ _ _ _ _ h).directory
  | listenCallback thread id c =>
      rcases onListenCallback_ok_iff.1 h with ⟨_, h⟩
      cases c with
      | received message deliveryTag throws =>
          exact directory_listenReceived h
      | consumeError message =>
          exact directory_consumeError h
      | _ =>
          exact (onObjects_listenReport _ _ _ _ _ h).directory
  | replayCall thread r call =>
      exact (onReplays_replayCall _ _ _ _ _ _ _ h).directory
  | replayDestroyed r =>
      exact (onReplays_replayDestroyed _ _ _ _ h).directory
  | replySuccess transaction =>
      exact (onReplays_replySuccess _ _ _ _ h).directory
  | replyFailure transaction message =>
      rcases takeTransaction_ok_iff.1 h with ⟨_, h⟩
      rcases Prog.seq_ok_iff.1 h with ⟨b₁, _, _, hreport, hdelete, _⟩
      -- neither the report nor the deletion of a replay enters or removes anything
      have hb₁ := (onObjects_listenReport _ _ _ _ _ hreport).directory
      exact (onReplays_deleteReplay _ _ _ _ hdelete).directory.trans hb₁
  | connectionError thread message =>
      exact (onObjects_handlerReport _ _ _ _ _ h).directory
  | connectionLost thread =>
      exact (onObjects_handlerReport _ _ _ _ _ h).directory
  | _ =>
      exact (step_aside rfl h).directory

/-- Callbacks stay registered. -/
theorem step_channels_has {codec : Codec} {b b' : BrokerImpl H} {e : Event H}
    {as : List (Action H)} {id : String} (hid : b.listenChannels.has id = true)
    (h : step codec b e = .ok (b', as)) : b'.listenChannels.has id = true := by
  -- `listen_channels` is read off the directory, whose steps only add to it
  have hchannels : b'.listenChannels = _ := congrArg Directory.channels (step_directory h)
  rw [hchannels]
  have hid : b.directory.channels.has id = true := hid
  cases e with
  | listenMessages thread queue keys failed =>
      by_cases hnext : id = idText b.uniqueId
      · simp [Directory.step, Directory.enter, hnext, Table.has]
      · simpa [Directory.step, Directory.enter, Table.has, Table.get_set_of_ne _ _ hnext] using hid
  | listenCallback thread id' c =>
      cases c with
      | received message deliveryTag throws =>
          cases hdecode : codec.fromMsgpack message.body <;>
            simpa only [Directory.step, hdecode, Directory.clear] using hid
      | _ =>
          exact hid
  | _ =>
      exact hid

end BrokerImpl

end CapyAmqp
