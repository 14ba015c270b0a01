/-
# A peer speaks for itself only

Whatever text a peer sends, its bytes fall into the lines of the text
(`Session.lines_utf8`). After a hello that can be read, every further line that
is a message reaches the manager, in order and with the peer as its sender, news
of the end of a process apart (`Session.forward_utf8`). The session adds one such
piece of news itself, when the peer is gone, and takes the peer's queue off the
register.

None of this holds of a peer whose welcome cannot be written. Its session is over
then, without a word to the manager, and its queue stays on the register
(`Session.Unwelcomed`).

Key definitions: `utf8`, `Text.lines`, `Message.SaidBy`, `Session.said`, `Session.Spoken`,
`Session.Unwelcomed`.
Key theorems: `Session.lines_utf8`, `Message.saidBy_stamp`, `Session.run_utf8`.
-/
import Mathlib.Data.List.Forall2
import Mathlib.Data.List.TakeWhile
import TwoPhase.Json.Edit
import TwoPhase.Proofs.Delivery
import TwoPhase.Session

namespace TwoPhase

/-! ### Texts and their bytes -/

/-- The bytes of a row of characters. -/
def utf8 (cs : List Char) : Bytes := cs.flatMap String.utf8EncodeChar

theorem utf8_cons (c : Char) (cs : List Char) : utf8 (c :: cs) = String.utf8EncodeChar c ++ utf8 cs := List.flatMap_cons

theorem utf8_eq_nil_iff {cs : List Char} : utf8 cs = [] ↔ cs = [] := by
  cases cs <;> simp [utf8, String.utf8EncodeChar_ne_nil]

theorem textOfUtf8?_utf8 (cs : List Char) : textOfUtf8? (utf8 cs) = some (String.ofList cs) := by
  have hbytes : (⟨(utf8 cs).toArray⟩ : ByteArray) = cs.utf8Encode := by
    apply ByteArray.ext
    simp [utf8, List.utf8Encode, List.data_toByteArray]
  unfold textOfUtf8? String.fromUTF8?
  rw [hbytes, dif_pos ByteArray.isValidUTF8_utf8Encode]
  rfl

/-- A line feed is no part of another character. -/
theorem feed_notMem_utf8EncodeChar {c : Char} (h : c ≠ '\n') : 10 ∉ String.utf8EncodeChar c := by
  have hval : c.val.toNat ≠ 10 := fun he => h (Char.ext (UInt32.toNat_inj.1 he))
  have hbyte : ∀ n : Nat, n % 256 ≠ 10 → (10 : UInt8) ≠ UInt8.ofNat n := by
    intro n hn he
    apply hn
    have := congrArg UInt8.toNat he
    simpa using this.symm
  unfold String.utf8EncodeChar
  dsimp only
  split
  · rw [List.mem_singleton]
    exact hbyte _ (by omega)
  · split
    · simp only [List.mem_cons, List.not_mem_nil, or_false, not_or]
      exact ⟨hbyte _ (by omega), hbyte _ (by omega)⟩
    · split <;> simp only [List.mem_cons, List.not_mem_nil, or_false, not_or]
      · exact ⟨hbyte _ (by omega), hbyte _ (by omega), hbyte _ (by omega)⟩
      · exact ⟨hbyte _ (by omega), hbyte _ (by omega), hbyte _ (by omega), hbyte _ (by omega)⟩

namespace Text

/-- The lines of a row of characters. What follows the last line feed is a line
if it is not empty. -/
def lineChars (cs : List Char) : List (List Char) :=
  let pieces := cs.splitOn '\n'
  if pieces.getLast? = some [] then pieces.dropLast else pieces

/-- The lines of a text. -/
def lines (s : String) : List String := (lineChars s.toList).map String.ofList

theorem lineChars_feed (cs : List Char) : lineChars ('\n' :: cs) = [] :: lineChars cs := by
  obtain ⟨p, ps, hpieces⟩ := List.exists_cons_of_ne_nil (List.splitOn_ne_nil '\n' cs)
  have hsplit : ('\n' :: cs).splitOn '\n' = [] :: p :: ps := by
    rw [List.splitOn_cons_eq_if_modifyHead, if_pos (beq_self_eq_true _), hpieces]
  simp only [lineChars, hsplit, hpieces, List.getLast?_cons_cons, List.dropLast_cons_cons]
  split <;> rfl

theorem lineChars_cons {c : Char} (h : c ≠ '\n') (cs : List Char) :
    lineChars (c :: cs) = match lineChars cs with
      | [] => [[c]]
      | l :: ls => (c :: l) :: ls := by
  obtain ⟨p, ps, hpieces⟩ := List.exists_cons_of_ne_nil (List.splitOn_ne_nil '\n' cs)
  have hsplit : (c :: cs).splitOn '\n' = (c :: p) :: ps := by
    rw [List.splitOn_cons_eq_if_modifyHead, if_neg (by simpa using h), hpieces, List.modifyHead_cons]
  simp only [lineChars, hsplit, hpieces]
  cases ps with
  | nil => cases p <;> simp
  | cons p' ps =>
    simp only [List.getLast?_cons_cons, List.dropLast_cons_cons]
    by_cases hlast : (p' :: ps).getLast? = some []
    · simp only [if_pos hlast]
    · simp only [if_neg hlast]

end Text

namespace Session

/-- Bytes without a line feed are the beginning of a line. -/
theorem lines_append {bs : Bytes} (some : bs ≠ []) (h : 10 ∉ bs) (rest : Bytes) :
    lines (bs ++ rest) = match lines rest with
      | [] => [bs]
      | l :: ls => (bs ++ l) :: ls := by
  induction bs with
  | nil => exact absurd rfl some
  | cons b bs ih =>
    rw [List.mem_cons, not_or] at h
    have hb : b ≠ 10 := fun he => h.1 he.symm
    rw [List.cons_append, lines, if_neg hb]
    by_cases hbs : bs = []
    · rw [hbs, List.nil_append]
      cases lines rest <;> rfl
    · rw [ih hbs h.2]
      cases lines rest <;> rfl

theorem upToLast_append {α : Type} [DecidableEq α] {a : α} {xs : List α} (h : a ∉ xs) (ys : List α) :
    upToLast a (xs ++ ys) = if upToLast a ys = [] then [] else xs ++ upToLast a ys := by
  induction xs with
  | nil => simp
  | cons x xs ih =>
    rw [List.mem_cons, not_or] at h
    have hx : x ≠ a := fun he => h.1 he.symm
    rw [List.cons_append, upToLast, ih h.2]
    by_cases hys : upToLast a ys = [] <;> simp [hx, hys]

/-- The last line feed among the bytes of a text is that of the text. -/
theorem upToLast_utf8 : ∀ cs : List Char, upToLast 10 (utf8 cs) = utf8 (upToLast '\n' cs)
  | [] => rfl
  | c :: cs => by
    have ih := upToLast_utf8 cs
    by_cases hc : c = '\n'
    · have hfeed : utf8 ('\n' :: cs) = 10 :: utf8 cs := rfl
      rw [hc, hfeed, upToLast, if_neg (by simp), ih, upToLast, if_neg (by simp)]
      rfl
    · rw [utf8_cons, upToLast_append (feed_notMem_utf8EncodeChar hc), ih, upToLast]
      by_cases hcs : upToLast '\n' cs = []
      · rw [if_pos (utf8_eq_nil_iff.2 hcs), if_pos ⟨hc, hcs⟩]
        rfl
      · rw [if_neg (mt utf8_eq_nil_iff.1 hcs), if_neg fun hboth => hcs hboth.2, utf8_cons]

/-- The bytes of a text are read as far as the text is. -/
theorem Link.arrives_utf8 (link : Link) (cs : List Char) : link.arrives 10 (utf8 cs) = utf8 (link.arrives '\n' cs) := by
  unfold arrives
  split
  · exact upToLast_utf8 cs
  · rfl

/-- The bytes of a text fall into the lines of the text. -/
theorem lines_utf8 : ∀ cs : List Char, lines (utf8 cs) = (Text.lineChars cs).map utf8
  | [] => rfl
  | c :: cs => by
    have ih := lines_utf8 cs
    by_cases hc : c = '\n'
    · subst hc
      rw [Text.lineChars_feed, List.map_cons, ← ih]
      rfl
    · rw [Text.lineChars_cons hc, utf8_cons, lines_append String.utf8EncodeChar_ne_nil (feed_notMem_utf8EncodeChar hc), ih]
      cases Text.lineChars cs <;> simp [utf8]

end Session

/-! ### Senders -/

/-- The message `m'` says what `m` says, with `peer` as its sender. -/
structure Message.SaidBy (peer : Handle) (m m' : Message) : Prop where
  kind : m'.kind = m.kind
  sender : Json.fieldValues? ["process"] 0 m'.bodyJson = some [some peer.toJson]
  body : m'.bodyJson = m.bodyJson.mapField "process" fun _ => peer.toJson

/-- Stamping a message replaces its sender and nothing else. -/
theorem Message.saidBy_stamp (peer : Handle) {m : Message} (h : m.kind ≠ .processExit) :
    SaidBy peer m (m.stamp peer) := by
  cases m with
  | processExit => exact absurd rfl h
  | _ => exact ⟨rfl, by rfl, by rfl⟩

namespace Session

/-- The messages in the lines of a peer, news of the end of a process apart. -/
def said (ls : List String) : List Message :=
  ((ls.filter fun l => !l.toList.all Text.isBlank).filterMap fun l => Message.ofText? (Text.trim l)).filter
    (·.kind ≠ .processExit)

theorem trim_of_blank {l : String} (h : l.toList.all Text.isBlank = true) : Text.trim l = "" := by
  have hnone : l.toList.dropWhile Text.isBlank = [] := List.dropWhile_eq_nil_iff.2 fun c hc => List.all_eq_true.1 h c hc
  unfold Text.trim Text.trimChars
  rw [hnone]
  rfl

/-- A message is said if its line is not blank, which no message's line is. -/
theorem said_cons (l : String) (ls : List String) :
    said (l :: ls) = ((Message.ofText? (Text.trim l)).toList.filter (·.kind ≠ .processExit)) ++ said ls := by
  have hempty : Message.ofText? "" = none := by decide +kernel
  unfold said
  by_cases blank : l.toList.all Text.isBlank = true
  · rw [List.filter_cons_of_neg (by simp [blank]), trim_of_blank blank, hempty]
    rfl
  · rw [List.filter_cons_of_pos (by simp [blank]), List.filterMap_cons]
    cases Message.ofText? (Text.trim l) with
    | none => rfl
    | some m => exact List.filter_append [m] _

/-- What reaches the manager is what the peer said, with the peer as its sender. -/
theorem said_forwarded (peer : Handle) : ∀ ls : List String,
    List.Forall₂ (Message.SaidBy peer) (said ls) (ls.filterMap (messageOf? peer))
  | [] => .nil
  | l :: ls => by
    have ih := said_forwarded peer ls
    rw [said_cons, List.filterMap_cons, messageOf?]
    cases Message.ofText? (Text.trim l) with
    | none => exact ih
    | some m =>
      have hstamp := fun h => Message.saidBy_stamp peer (m := m) h
      cases m with
      | processExit e => exact ih
      | _ => exact .cons (hstamp (by simp [Message.kind])) ih

/-- Every line is read, to the last one. -/
theorem forward_utf8 (peer : Handle) : ∀ ls : List (List Char),
    forward true peer (ls.map utf8) = ((ls.map String.ofList).filterMap (messageOf? peer), none)
  | [] => rfl
  | l :: ls => by
    have ih := forward_utf8 peer ls
    simp only [List.map_cons, forward, textOfUtf8?_utf8, List.filterMap_cons, ih]
    cases messageOf? peer (String.ofList l) <;> rfl

/-! ### Whole sessions -/

/-- A peer that is gone has no queue. -/
theorem not_isRegistered_leave (queues : Channels Message) (peer : Handle) :
    (leave queues peer).isRegistered peer.queue = false := by
  unfold leave Channels.unregister Channels.isRegistered
  cases hc : queues.channel? peer.queue with
  | none => simp [Channels.close, hc]
  | some c =>
    have hput := Channels.channel?_put hc { c with registered := false }
    simp [Channels.close, hput, Channels.channel?_put hput, Channel.close]

theorem fresh_register (queues : Channels Message) (capacity : Nat) :
    queues.isRegistered (queues.register capacity).2 = false ∧
      (queues.register capacity).1.isRegistered (queues.register capacity).2 = true := by
  simp [Channels.register, Channels.isRegistered, Channels.channel?, Channel.new]

/-- The lines that are read of a text. -/
def Link.textLines (link : Link) (sent : String) : List String :=
  Text.lines (String.ofList (link.arrives '\n' sent.toList))

/-- What a session of `peer` comes to, whose lines after the hello are `ls`. The
queue of the peer is registered for the session only. The manager is told what
the peer said, and then, once, that the peer is gone. -/
structure Spoken (link : Link) (queues entered : Channels Message) (peer : Handle) (ls : List String) (ended : Ended) :
    Prop where
  welcomed : ended.peer = some peer
  fresh : queues.isRegistered peer.queue = false
  registered : entered.isRegistered peer.queue = true
  inbound : ∃ forwarded, ended.inbound = forwarded ++ [.processExit (.ofPid peer.pid)] ∧
    List.Forall₂ (Message.SaidBy peer) (said ls) forwarded
  exits : ended.inbound.filter (·.kind = .processExit) = [.processExit (.ofPid peer.pid)]
  fault : ended.fault = link.broken
  left : ended.queues.isRegistered peer.queue = false

/-- What a session comes to whose peer cannot be welcomed. The manager is told
nothing, and the queue of the peer stays on the register. -/
structure Unwelcomed (peer : Handle) (reason : String) (ended : Ended) : Prop where
  unwelcomed : ended.peer = none
  inbound : ended.inbound = []
  fault : ended.fault = some (.io reason)
  stays : ended.queues.isRegistered peer.queue = true

/-- Nothing that a peer says is news of the end of a process. -/
theorem not_exit_of_said {peer : Handle} {ls : List String} {forwarded : List Message}
    (h : List.Forall₂ (Message.SaidBy peer) (said ls) forwarded) :
    forwarded.filter (·.kind = .processExit) = [] := by
  have hsaid : ∀ m ∈ said ls, m.kind ≠ .processExit := fun m hm => by simpa using (List.mem_filter.1 hm).2
  generalize said ls = heard at h hsaid
  induction h with
  | nil => rfl
  | @cons m m' _ _ hm _ ih =>
    have hkind : m'.kind ≠ .processExit := hm.kind ▸ hsaid m List.mem_cons_self
    rw [List.filter_cons_of_neg (by simpa using hkind)]
    exact ih fun m hm => hsaid m (List.mem_cons_of_mem _ hm)

/-- A queue that nobody receives from any more stays on the register. -/
theorem isRegistered_close (queues : Channels Message) (id : QueueId) :
    (queues.close id).1.isRegistered id = queues.isRegistered id := by
  unfold Channels.close Channels.isRegistered
  cases hc : queues.channel? id with
  | none => simp [hc]
  | some c => simp [Channels.channel?_put hc, Channel.close]

/-- A session of any text, while the manager takes messages. Without a hello that
can be read nothing comes of it; with one everything depends on the welcome. -/
theorem run_utf8 (link : Link) (queues : Channels Message) (capacity : Nat) (sent : String) :
    (∀ pid, (link.textLines sent).head?.bind hello? = some pid →
      ∃ entered peer, enter queues capacity pid = (entered, peer) ∧ peer.pid = pid ∧
        (link.welcome = none →
          Spoken link queues entered peer (link.textLines sent).tail
            (run link queues capacity true (utf8 sent.toList))) ∧
        ∀ reason, link.welcome = some reason →
          Unwelcomed peer reason (run link queues capacity true (utf8 sent.toList))) ∧
    ((link.textLines sent).head?.bind hello? = none →
      (run link queues capacity true (utf8 sent.toList)).peer = none ∧
        (run link queues capacity true (utf8 sent.toList)).inbound = [] ∧
        (run link queues capacity true (utf8 sent.toList)).queues = queues) := by
  unfold run Link.textLines Text.lines
  rw [link.arrives_utf8, lines_utf8, String.toList_ofList]
  cases Text.lineChars (link.arrives '\n' sent.toList) with
  | nil => exact ⟨fun _ h => (by simp at h), fun _ => ⟨rfl, rfl, rfl⟩⟩
  | cons first rest =>
    simp only [List.map_cons, List.head?_cons, List.tail_cons, Option.bind_some, textOfUtf8?_utf8]
    cases hello? (String.ofList first) with
    | none => exact ⟨fun _ h => (by cases h), fun _ => ⟨rfl, rfl, rfl⟩⟩
    | some pid =>
      have hfresh := fresh_register queues (max capacity 1)
      refine ⟨fun _ he => ?_, fun h => by cases h⟩
      cases he
      refine ⟨_, _, rfl, rfl, fun written => ?_, fun reason unwritten => ?_⟩
      · simp only [written, forward_utf8]
        have hsaid := said_forwarded (enter queues capacity pid).2 (rest.map String.ofList)
        refine ⟨rfl, hfresh.1, hfresh.2, ⟨_, rfl, hsaid⟩, ?_, rfl, not_isRegistered_leave _ _⟩
        rw [List.filter_append, not_exit_of_said hsaid]
        rfl
      · simp only [unwritten]
        exact ⟨rfl, rfl, rfl, (isRegistered_close _ _).trans hfresh.2⟩

/-- A peer says something in the name of another process. -/
def otherName : String :=
  "\x7b\"pid\":42\x7d\nnot json\n\n" ++ (Message.resourceReady ⟨⟨7, 99⟩, 1⟩).toText

theorem run_utf8_otherName :
    (run .sound .empty 16 true (utf8 otherName.toList)).inbound =
        [.resourceReady ⟨⟨42, 1⟩, 1⟩, .processExit (.ofPid 42)] ∧
      ∃ entered, Spoken .sound .empty entered ⟨42, 1⟩ (Link.sound.textLines otherName).tail
        (run .sound .empty 16 true (utf8 otherName.toList)) := by
  have hhello : (Link.sound.textLines otherName).head?.bind hello? = some 42 := by decide +kernel
  obtain ⟨entered, peer, henter, -, hspoken, -⟩ := (run_utf8 .sound .empty 16 otherName).1 42 hhello
  have hpeer : peer = ⟨42, 1⟩ := (congrArg Prod.snd henter).symm
  subst hpeer
  exact ⟨by decide +kernel, entered, hspoken rfl⟩

/-- A connection on which the welcome cannot be written. -/
def Link.reset : Link := ⟨some "connection reset by peer", none⟩

/-- Not every peer whose hello can be read is heard, or missed when it is gone. -/
theorem not_run_utf8_reset :
    ¬ ∀ (link : Link) (queues : Channels Message) (capacity : Nat) (sent : String) (pid : Pid),
      (link.textLines sent).head?.bind hello? = some pid →
        ∃ entered peer, enter queues capacity pid = (entered, peer) ∧ peer.pid = pid ∧
          Spoken link queues entered peer (link.textLines sent).tail
            (run link queues capacity true (utf8 sent.toList)) := by
  intro h
  have hhello : (Link.reset.textLines otherName).head?.bind hello? = some 42 := by decide +kernel
  obtain ⟨entered, peer, henter, -, hspoken⟩ := h .reset .empty 16 otherName 42 hhello
  have hpeer : peer = ⟨42, 1⟩ := (congrArg Prod.snd henter).symm
  subst hpeer
  -- the queue of the peer is found after the session, and there is no news of its end
  have hstays : (run .reset .empty 16 true (utf8 otherName.toList)).queues.isRegistered 1 = true := by decide +kernel
  have hleft := hspoken.left
  rw [hstays] at hleft
  cases hleft

end Session

end TwoPhase
