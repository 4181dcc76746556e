import LughOS.Kernel.FanOut

/-!
# The topic table of a SUB socket

`socket_state_t` keeps the topics of a SUB socket in three fields: eight rows of 32 bytes, an
array of 8-bit lengths, and the number of rows in use. Behind them in the structure come three
bytes of padding and, behind `num_topics`, whatever the memory holds.

`nng_sub_subscribe` writes the next row, and leaves what the row held behind the topic.
`nng_sub_unsubscribe` compares the stored length with the low byte of the given one but the
bytes over the whole given length, and then moves the last row over the one it found. A given
length of 256 or more can therefore agree with a stored one, and the comparison goes on into
the rows and fields behind.
-/

namespace LughOS.Kernel

open Bytes

/-- Moving the last element over another one takes that other one away. -/
theorem cons_dropLast_set_perm {α : Type*} {l : List α} {i : Nat} (inside : i < l.length)
    (final : l.length - 1 < l.length) :
    (l[i] :: (l.set i l[l.length - 1]).dropLast).Perm l := by
  have swapped := List.set_set_perm inside final
  have ends : (l.set i l[l.length - 1]).set (l.length - 1) l[i] =
      (l.set i l[l.length - 1]).dropLast ++ [l[i]] := by
    rw [List.set_eq_take_append_cons_drop, if_pos (by simpa using final),
      List.drop_of_length_le (by simp; omega), List.dropLast_eq_take, List.length_set]
  rw [ends] at swapped
  exact (List.perm_append_singleton _ _).symm.trans swapped

abbrev TopicIndex := Fin 8

/-- The fields `topics`, `topic_len` and `num_topics`. No row in use is longer than a row. -/
structure SubTable where
  topics : TopicIndex → Fin 32 → Byte
  topicLen : TopicIndex → BitVec 8
  numTopics : Nat
  few : numTopics ≤ maxSubs
  short : ∀ i : TopicIndex, i.val < numTopics → (topicLen i).toNat ≤ maxTopicLen

namespace SubTable

variable {t : SubTable} {topic body : List Byte} {behind : Nat → Byte} {i : TopicIndex}

/-! ## The functions -/

/-- `plain_copy` into a row: the bytes behind the source keep their values. -/
def plainCopy (row : Fin 32 → Byte) (src : List Byte) : Fin 32 → Byte :=
  fun j => src[j.val]?.getD (row j)

theorem short_push (lens : TopicIndex → BitVec 8) (idx : TopicIndex)
    (short : ∀ i : TopicIndex, i.val < idx.val → (lens i).toNat ≤ maxTopicLen)
    (small : topic.length ≤ maxTopicLen) (i : TopicIndex) (used : i.val < idx.val + 1) :
    (Function.update lens idx (BitVec.ofNat 8 topic.length) i).toNat ≤ maxTopicLen := by
  rcases eq_or_ne i idx with rfl | other
  · rw [Function.update_self, BitVec.toNat_ofNat]
    exact (Nat.mod_le _ _).trans small
  · rw [Function.update_of_ne other]
    have := Fin.val_ne_of_ne other
    exact short i (by omega)

/-- The body of `nng_sub_subscribe` for a live SUB socket. -/
def subscribe (t : SubTable) (topic : List Byte) : Rv × SubTable :=
  if large : maxTopicLen < topic.length then (.einval, t)
  else if full : maxSubs ≤ t.numTopics then (.enomem, t)
  else
    let idx : TopicIndex := ⟨t.numTopics, Nat.lt_of_not_le full⟩
    (.ok,
      { topics := Function.update t.topics idx (plainCopy (t.topics idx) topic)
        topicLen := Function.update t.topicLen idx (BitVec.ofNat 8 topic.length)
        numTopics := t.numTopics + 1
        few := Nat.lt_of_not_le full
        short := short_push t.topicLen idx t.short (Nat.le_of_not_lt large) })

/-- The byte at an offset from `topics[0]`. -/
def byteAt (t : SubTable) (behind : Nat → Byte) (offset : Nat) : Byte :=
  if row : offset < 256 then t.topics ⟨offset / 32, by omega⟩ ⟨offset % 32, by omega⟩
  else if len : offset < 264 then t.topicLen ⟨offset - 256, by omega⟩
  else if 267 ≤ offset ∧ offset < 271 then
    BitVec.ofNat 8 (t.numTopics / 2 ^ (8 * (offset - 267)))
  else behind offset

/-- `plain_eq` of the bytes from row `i` on with the given topic. -/
def plainEq (t : SubTable) (behind : Nat → Byte) (i : TopicIndex) (topic : List Byte) : Bool :=
  decide ((List.range topic.length).map (fun j => t.byteAt behind (32 * i.val + j)) = topic)

/-- The condition of the loop in `nng_sub_unsubscribe`. -/
def isTopic (t : SubTable) (behind : Nat → Byte) (topic : List Byte) (i : TopicIndex) : Bool :=
  decide (i.val < t.numTopics) && (decide (t.topicLen i = BitVec.ofNat 8 topic.length) &&
    (decide (topic.length = 0) || t.plainEq behind i topic))

/-- The last row in use. -/
def last (t : SubTable) : TopicIndex :=
  ⟨t.numTopics - 1, Nat.lt_of_le_of_lt (Nat.sub_le_sub_right t.few 1) (by decide)⟩

theorem short_compact (t : SubTable) (i j : TopicIndex) (used : j.val < t.numTopics - 1) :
    (Function.update t.topicLen i (t.topicLen t.last) j).toNat ≤ maxTopicLen := by
  rcases eq_or_ne j i with rfl | other
  · rw [Function.update_self]
    exact t.short t.last (by simp only [last]; omega)
  · rw [Function.update_of_ne other]
    exact t.short j (by omega)

/-- Row `i` is overwritten with the last one. -/
def compact (t : SubTable) (i : TopicIndex) : SubTable where
  topics := Function.update t.topics i (t.topics t.last)
  topicLen := Function.update t.topicLen i (t.topicLen t.last)
  numTopics := t.numTopics - 1
  few := (Nat.sub_le _ _).trans t.few
  short := t.short_compact i

/-- The body of `nng_sub_unsubscribe` for a live SUB socket. -/
def unsubscribe (t : SubTable) (behind : Nat → Byte) (topic : List Byte) : Rv × SubTable :=
  match Table.first? (t.isTopic behind topic) with
  | none => (.enoent, t)
  | some i => (.ok, t.compact i)

/-- `sub_accepts` for a message with the given body. -/
def accepts (t : SubTable) (body : List Byte) : Bool :=
  (List.finRange 8).any fun i =>
    decide (i.val < t.numTopics) && (decide (t.topicLen i = 0) ||
      (decide ((t.topicLen i).toNat ≤ body.length) &&
        decide (body.take (t.topicLen i).toNat =
          (List.ofFn (t.topics i)).take (t.topicLen i).toNat)))

/-! ## The topics of a table -/

/-- The topic that a row holds. -/
def entry (t : SubTable) (i : TopicIndex) : List Byte :=
  (List.ofFn (t.topics i)).take (t.topicLen i).toNat

/-- The topics of the rows in use. -/
def entries (t : SubTable) : List (List Byte) :=
  List.ofFn fun i : Fin t.numTopics => t.entry (i.castLE t.few)

@[simp] theorem length_entries : t.entries.length = t.numTopics := List.length_ofFn

theorem mem_entries :
    topic ∈ t.entries ↔ ∃ i : TopicIndex, i.val < t.numTopics ∧ t.entry i = topic := by
  simp only [entries, List.mem_ofFn]
  constructor
  · rintro ⟨i, rfl⟩
    exact ⟨i.castLE t.few, i.isLt, rfl⟩
  · rintro ⟨i, used, rfl⟩
    exact ⟨⟨i.val, used⟩, rfl⟩

theorem getElem_entries {j : Nat} (inside : j < t.entries.length) :
    t.entries[j] = t.entry ⟨j, (length_entries ▸ inside).trans_le t.few⟩ := by
  simp only [entries, List.getElem_ofFn]
  rfl

theorem length_entry (used : i.val < t.numTopics) : (t.entry i).length = (t.topicLen i).toNat := by
  have := t.short i used
  unfold maxTopicLen at this
  simp only [entry, List.length_take, List.length_ofFn]
  omega

theorem length_of_mem_entries (held : topic ∈ t.entries) : topic.length ≤ maxTopicLen := by
  obtain ⟨i, used, rfl⟩ := mem_entries.mp held
  exact (length_entry used).trans_le (t.short i used)

/-! ### Subscribing -/

theorem subscribe_eq_ok_iff :
    (t.subscribe topic).1 = .ok ↔ topic.length ≤ maxTopicLen ∧ t.numTopics < maxSubs := by
  unfold subscribe
  split
  case isTrue large => simp; omega
  split
  case isTrue full => simp; omega
  case isFalse => simp; omega

theorem subscribe_refused (refused : (t.subscribe topic).1 ≠ .ok) :
    (t.subscribe topic).2 = t := by
  unfold subscribe at refused ⊢
  split
  case isTrue => rfl
  case isFalse small =>
    rw [dif_neg small] at refused
    split
    case isTrue => rfl
    case isFalse room => simp [room] at refused

/-- The length of a topic that fits a row is stored exactly. -/
theorem toNat_topicLen (small : topic.length ≤ maxTopicLen) :
    (BitVec.ofNat 8 topic.length).toNat = topic.length := by
  unfold maxTopicLen at small
  rw [BitVec.toNat_ofNat, Nat.mod_eq_of_lt (by omega)]

theorem take_plainCopy (row : Fin 32 → Byte) (small : topic.length ≤ maxTopicLen) :
    (List.ofFn (plainCopy row topic)).take topic.length = topic := by
  unfold maxTopicLen at small
  refine List.ext_getElem (by simp [small]) fun j inside _ => ?_
  rw [List.length_take] at inside
  have copied : j < topic.length := by omega
  rw [List.getElem_take, List.getElem_ofFn, plainCopy, List.getElem?_eq_getElem copied,
    Option.getD_some]

/-- A topic that was accepted is the last one of the table. -/
theorem entries_subscribe (ok : (t.subscribe topic).1 = .ok) :
    (t.subscribe topic).2.entries = t.entries ++ [topic] := by
  obtain ⟨small, room⟩ := subscribe_eq_ok_iff.mp ok
  unfold subscribe
  rw [dif_neg (by omega), dif_neg (by omega)]
  simp only [entries]
  rw [List.ofFn_succ_last]
  congr 1
  · congr 1
    funext i
    have other : (i.castSucc.castLE room : TopicIndex) ≠ ⟨t.numTopics, room⟩ :=
      Fin.ne_of_val_ne (Nat.ne_of_lt i.isLt)
    simp only [entry]
    rw [Function.update_of_ne other, Function.update_of_ne other]
    rfl
  · have new : ((Fin.last t.numTopics).castLE room : TopicIndex) = ⟨t.numTopics, room⟩ := rfl
    simp only [entry]
    rw [new, Function.update_self, Function.update_self, toNat_topicLen small,
      take_plainCopy _ small]

/-! ### Unsubscribing -/

/-- Within a row the comparison reads the row. -/
theorem byteAt_row (i : TopicIndex) (j : Fin 32) :
    t.byteAt behind (32 * i.val + j.val) = t.topics i j := by
  have inside : 32 * i.val + j.val < 256 := by omega
  have row : (⟨(32 * i.val + j.val) / 32, by omega⟩ : TopicIndex) = i :=
    Fin.ext (show (32 * i.val + j.val) / 32 = i.val by omega)
  have column : (⟨(32 * i.val + j.val) % 32, by omega⟩ : Fin 32) = j :=
    Fin.ext (show (32 * i.val + j.val) % 32 = j.val by omega)
  rw [byteAt, dif_pos inside, row, column]

theorem map_byteAt {count : Nat} (small : count ≤ maxTopicLen) (i : TopicIndex) :
    (List.range count).map (fun j => t.byteAt behind (32 * i.val + j)) =
      (List.ofFn (t.topics i)).take count := by
  unfold maxTopicLen at small
  refine List.ext_getElem (by simp [small]) fun j inside _ => ?_
  simp only [List.length_map, List.length_range] at inside
  simp only [List.getElem_map, List.getElem_range, List.getElem_take, List.getElem_ofFn]
  exact byteAt_row i ⟨j, by omega⟩

/-- Row `i` is in use, its length is the low byte of the topic's, and the memory from the row on
starts with the topic. -/
def Agrees (t : SubTable) (behind : Nat → Byte) (topic : List Byte) (i : TopicIndex) : Prop :=
  i.val < t.numTopics ∧ t.topicLen i = BitVec.ofNat 8 topic.length ∧
    ∀ j < topic.length, topic[j]? = some (t.byteAt behind (32 * i.val + j))

instance (t : SubTable) (behind : Nat → Byte) (topic : List Byte) (i : TopicIndex) :
    Decidable (t.Agrees behind topic i) := inferInstanceAs (Decidable (_ ∧ _ ∧ _))

theorem isTopic_eq_agrees : t.isTopic behind topic i = true ↔ t.Agrees behind topic i := by
  have bytes : t.plainEq behind i topic = true ↔
      ∀ j < topic.length, topic[j]? = some (t.byteAt behind (32 * i.val + j)) := by
    rw [plainEq, decide_eq_true_eq]
    constructor
    · intro same j inside
      rw [← same, List.getElem?_map, List.getElem?_range inside, Option.map_some]
    · intro same
      refine List.ext_getElem (by simp) fun j _ inside => ?_
      have at_j := same j inside
      rw [List.getElem?_eq_getElem inside, Option.some.injEq] at at_j
      simpa using at_j.symm
  simp only [isTopic, Bool.and_eq_true, Bool.or_eq_true, decide_eq_true_eq, bytes, Agrees]
  refine and_congr_right fun _ => and_congr_right fun _ => ⟨?_, .inr⟩
  rintro (empty | same)
  · intro j inside
    omega
  · exact same

/-- Up to 255 bytes, the loop stops at the rows that hold the topic. -/
theorem isTopic_iff (small : topic.length < 256) :
    t.isTopic behind topic i = true ↔ i.val < t.numTopics ∧ t.entry i = topic := by
  have length : (BitVec.ofNat 8 topic.length).toNat = topic.length := by
    rw [BitVec.toNat_ofNat, Nat.mod_eq_of_lt small]
  rw [isTopic]
  simp only [Bool.and_eq_true, Bool.or_eq_true, decide_eq_true_eq]
  refine and_congr_right fun used => ?_
  have row := t.short i used
  constructor
  · rintro ⟨len, same⟩
    rw [len, length] at row
    rcases same with empty | same
    · apply List.eq_nil_of_length_eq_zero at empty
      subst empty
      simp [entry, len]
    · rw [plainEq, map_byteAt row, decide_eq_true_eq] at same
      rw [entry, len, length, same]
  · intro same
    have len : (t.topicLen i).toNat = topic.length := by rw [← length_entry used, same]
    rw [len] at row
    refine ⟨BitVec.eq_of_toNat_eq (len.trans length.symm), .inr ?_⟩
    rw [plainEq, map_byteAt row, decide_eq_true_eq, ← len]
    exact same

theorem entry_compact (i j : TopicIndex) :
    (t.compact i).entry j = if j = i then t.entry t.last else t.entry j := by
  simp only [entry, compact]
  split
  case isTrue here => rw [here, Function.update_self, Function.update_self]
  case isFalse other => rw [Function.update_of_ne other, Function.update_of_ne other]

theorem entries_compact (t : SubTable) (i : TopicIndex) :
    (t.compact i).entries = (t.entries.set i.val (t.entry t.last)).dropLast := by
  refine List.ext_getElem (by simp [compact]) fun j inside _ => ?_
  have before : j < t.numTopics - 1 := by simpa [compact] using inside
  rw [List.getElem_dropLast, List.getElem_set, getElem_entries, getElem_entries, entry_compact]
  simp only [Fin.ext_iff, eq_comm]

/-- Of the topics, one copy of the removed one goes. -/
theorem entry_cons_entries_compact (used : i.val < t.numTopics) :
    (t.entry i :: (t.compact i).entries).Perm t.entries := by
  have first : i.val < t.entries.length := by simpa using used
  have final : t.entries.length - 1 < t.entries.length := by omega
  have removed := cons_dropLast_set_perm first final
  rw [getElem_entries, getElem_entries] at removed
  rw [entries_compact]
  convert removed using 4
  simp [last]

theorem getLast?_entries (used : i.val < t.numTopics) :
    t.entries.getLast? = some (t.entry t.last) := by
  have some : t.entries ≠ [] := List.ne_nil_of_length_pos (by rw [length_entries]; omega)
  rw [List.getLast?_eq_getLast_of_ne_nil some, List.getLast_eq_getElem, getElem_entries]
  simp [last]

/-- The search for a row is the search for the topic, as far as the topics decide it. -/
theorem removedRow_entries : removedRow t.entries topic
      ((Table.first? (t.isTopic behind topic)).map Fin.val) =
    (Table.first? (t.isTopic behind topic)).map Fin.val := by
  unfold removedRow
  split
  case isTrue small =>
    cases found : Table.first? (t.isTopic behind topic) with
    | none =>
        rw [Option.map_none, List.findIdx?_eq_none_iff]
        intro held member
        obtain ⟨i, used, rfl⟩ := mem_entries.mp member
        have passed := Table.first?_eq_none_iff.mp found i
        rw [Bool.eq_false_iff, Ne, isTopic_iff small] at passed
        exact decide_eq_false fun same => passed ⟨used, same⟩
    | some i =>
        obtain ⟨used, same⟩ := (isTopic_iff small).mp (Table.first?_holds found)
        rw [Option.map_some, List.findIdx?_eq_some_iff_getElem]
        refine ⟨by simpa using used, by simpa [getElem_entries] using same, fun j before => ?_⟩
        have passed := Table.first?_least found (show (⟨j, by omega⟩ : TopicIndex) < i from before)
        rw [Bool.eq_false_iff, Ne, isTopic_iff small] at passed
        simp only [getElem_entries, decide_eq_true_eq]
        exact fun same => passed ⟨before.trans used, same⟩
  case isFalse long =>
    cases found : Table.first? (t.isTopic behind topic) with
    | none => rfl
    | some i =>
        obtain ⟨used, len, -⟩ := isTopic_eq_agrees.mp (Table.first?_holds found)
        rw [Option.map_some, Option.filter_some, if_pos]
        have inside : i.val < t.entries.length := by simpa using used
        rw [decide_eq_true_eq, List.getElem?_eq_getElem inside, Option.map_some, getElem_entries,
          length_entry used, len, BitVec.toNat_ofNat]

/-- `nng_sub_unsubscribe` finds a row just if one agrees with the topic. -/
theorem unsubscribe_eq_ok_iff :
    (t.unsubscribe behind topic).1 = .ok ↔ ∃ i, t.Agrees behind topic i := by
  unfold unsubscribe
  cases found : Table.first? (t.isTopic behind topic) with
  | none =>
      refine iff_of_false (by simp) ?_
      rintro ⟨i, agrees⟩
      have passed := Table.first?_eq_none_iff.mp found i
      rw [isTopic_eq_agrees.mpr agrees] at passed
      cases passed
  | some i => exact iff_of_true rfl ⟨i, isTopic_eq_agrees.mp (Table.first?_holds found)⟩

/-- What `nng_sub_unsubscribe` does, unless a topic longer than a row agrees with one. -/
theorem unsubscribe_cases (differs : maxTopicLen < topic.length → ∀ i, ¬t.Agrees behind topic i) :
    (t.unsubscribe behind topic = (.enoent, t) ∧ topic ∉ t.entries) ∨
      ((t.unsubscribe behind topic).1 = .ok ∧
        (topic :: (t.unsubscribe behind topic).2.entries).Perm t.entries) := by
  unfold unsubscribe
  cases found : Table.first? (t.isTopic behind topic) with
  | none =>
      refine .inl ⟨rfl, fun held => ?_⟩
      obtain ⟨i, holds⟩ := mem_entries.mp held
      have small := length_of_mem_entries held
      have passed := Table.first?_eq_none_iff.mp found i
      rw [(isTopic_iff (lt_of_le_of_lt small (by decide))).mpr holds] at passed
      cases passed
  | some i =>
      have hit := Table.first?_holds found
      have small : topic.length ≤ maxTopicLen :=
        Nat.le_of_not_lt fun long => differs long i (isTopic_eq_agrees.mp hit)
      obtain ⟨used, same⟩ := (isTopic_iff (lt_of_le_of_lt small (by decide))).mp hit
      refine .inr ⟨rfl, ?_⟩
      rw [← same]
      exact entry_cons_entries_compact used

/-! ### Matching -/

theorem accepts_iff : t.accepts body = true ↔ ∃ topic ∈ t.entries, topic <+: body := by
  simp only [accepts, List.any_eq_true, List.mem_finRange, true_and, Bool.and_eq_true,
    Bool.or_eq_true, decide_eq_true_eq]
  constructor
  · rintro ⟨i, used, empty | ⟨inside, same⟩⟩
    · refine ⟨t.entry i, mem_entries.mpr ⟨i, used, rfl⟩, ?_⟩
      simp [entry, empty]
    · refine ⟨t.entry i, mem_entries.mpr ⟨i, used, rfl⟩, ?_⟩
      rw [entry, ← same]
      exact List.take_prefix _ _
  · rintro ⟨topic, held, within⟩
    obtain ⟨i, used, rfl⟩ := mem_entries.mp held
    have inside := within.length_le
    have same := List.prefix_iff_eq_take.mp within
    rw [length_entry used] at inside same
    exact ⟨i, used, .inr ⟨inside, same.symm⟩⟩

end SubTable

/-! ## The calls on a socket -/

/-- The topic tables in `sock_state`. -/
abbrev SubTables := SocketId → SubTable

namespace SubTables

/-- What both calls check before they touch the table. -/
def onTable (tables : SubTables) (n : Nng) (sock : NngSocket)
    (call : SubTable → Rv × SubTable) : Rv × SubTables :=
  match n.valid? sock.id with
  | none => (.einval, tables)
  | some id =>
      if (n.socketPool id).protocol ≠ Protocol.sub0.code then (.einval, tables)
      else ((call (tables id)).1, Function.update tables id (call (tables id)).2)

def nngSubSubscribe (tables : SubTables) (n : Nng) (sock : NngSocket) (topic : List Byte) :
    Rv × SubTables :=
  tables.onTable n sock fun t => t.subscribe topic

/-- `behind` is the memory behind the socket's table. -/
def nngSubUnsubscribe (tables : SubTables) (n : Nng) (sock : NngSocket) (behind : Nat → Byte)
    (topic : List Byte) : Rv × SubTables :=
  tables.onTable n sock fun t => t.unsubscribe behind topic

end SubTables

/-- The topic lists of the sockets are the topics of the tables. -/
def Tabled (n : Nng) (tables : SubTables) : Prop :=
  ∀ id, (n.sockState id).topics = (tables id).entries

namespace Tabled

variable {n : Nng} {tables : SubTables}

/-- A subscription on the tables is one on the lists. -/
theorem nngSubSubscribe (tabled : Tabled n tables) (sock : NngSocket) (topic : List Byte) :
    (tables.nngSubSubscribe n sock topic).1 = (Kernel.nngSubSubscribe n sock topic).1 ∧
      Tabled (Kernel.nngSubSubscribe n sock topic).2
        (tables.nngSubSubscribe n sock topic).2 := by
  unfold SubTables.nngSubSubscribe SubTables.onTable Kernel.nngSubSubscribe
  cases n.valid? sock.id with
  | none => exact ⟨rfl, tabled⟩
  | some id =>
      dsimp only
      by_cases other : (n.socketPool id).protocol ≠ Protocol.sub0.code
      · rw [if_pos other, if_pos other]
        exact ⟨rfl, tabled⟩
      rw [if_neg other, if_neg other, tabled id, SubTable.length_entries]
      rcases lt_or_ge maxTopicLen topic.length with large | small
      · have same : (tables id).subscribe topic = (.einval, tables id) := dif_pos large
        rw [if_pos large, same, Function.update_eq_self]
        exact ⟨rfl, tabled⟩
      rcases le_or_gt maxSubs (tables id).numTopics with full | room
      · have same : (tables id).subscribe topic = (.enomem, tables id) := by
          rw [SubTable.subscribe, dif_neg small.not_gt, dif_pos full]
        rw [if_neg small.not_gt, if_pos full, same, Function.update_eq_self]
        exact ⟨rfl, tabled⟩
      have ok := SubTable.subscribe_eq_ok_iff.mpr ⟨small, room⟩
      rw [if_neg small.not_gt, if_neg room.not_ge]
      refine ⟨ok, fun d => ?_⟩
      rcases eq_or_ne d id with rfl | other
      · simp [Nng.setState, SubTable.entries_subscribe ok, tabled d]
      · simpa [Nng.setState, other] using tabled d

/-- An unsubscription on the tables is one on the lists, with the row that the memory decides. -/
theorem nngSubUnsubscribe (tabled : Tabled n tables) (sock : NngSocket) (behind : Nat → Byte)
    (topic : List Byte) :
    ∃ row, (tables.nngSubUnsubscribe n sock behind topic).1 =
        (Kernel.nngSubUnsubscribe n sock topic row).1 ∧
      Tabled (Kernel.nngSubUnsubscribe n sock topic row).2
        (tables.nngSubUnsubscribe n sock behind topic).2 := by
  unfold SubTables.nngSubUnsubscribe SubTables.onTable Kernel.nngSubUnsubscribe
  cases n.valid? sock.id with
  | none => exact ⟨none, rfl, tabled⟩
  | some id =>
      dsimp only
      by_cases other : (n.socketPool id).protocol ≠ Protocol.sub0.code
      · rw [if_pos other]
        exact ⟨none, by rw [if_pos other], by rw [if_pos other]; exact tabled⟩
      rw [if_neg other]
      refine ⟨(Table.first? ((tables id).isTopic behind topic)).map Fin.val, ?_⟩
      rw [if_neg other, tabled id, SubTable.removedRow_entries, SubTable.unsubscribe]
      cases found : Table.first? ((tables id).isTopic behind topic) with
      | none =>
          rw [Function.update_eq_self]
          exact ⟨rfl, tabled⟩
      | some i =>
          refine ⟨rfl, fun d => ?_⟩
          rcases eq_or_ne d id with rfl | other
          · have used := (SubTable.isTopic_eq_agrees.mp (Table.first?_holds found)).1
            simp [Nng.setState, tabled d, SubTable.entries_compact, SubTable.getLast?_entries used]
          · simpa [Nng.setState, other] using tabled d

/-- `sub_accepts` on the tables is the one on the lists. -/
theorem subAccepts (tabled : Tabled n tables) (id : SocketId) (msg : Nat) :
    (tables id).accepts (n.pool.bodyBytes msg) = Kernel.subAccepts n id msg := by
  rw [Bool.eq_iff_iff, SubTable.accepts_iff, subAccepts_eq, tabled id, List.any_eq_true]
  refine exists_congr fun topic => and_congr_right fun _ => ?_
  rw [Bool.or_eq_true, decide_eq_true_eq, decide_eq_true_eq]
  refine ⟨.inr, ?_⟩
  rintro (rfl | within)
  · exact List.nil_prefix
  · exact within

end Tabled

/-! ## Runs on one socket -/

/-- A call on the socket, or a message whose body `sub_accepts` looks at. -/
inductive SubOp where
  | subscribe (topic : List Byte)
  | unsubscribe (topic : List Byte) (behind : Nat → Byte)
  | accepts (body : List Byte)

/-- The tables, and the multiset that a caller keeps by the return values. -/
structure SubRun where
  tables : SubTables
  kept : Multiset (List Byte)

section Run

variable (n : Nng) (sock : NngSocket)

def SubRun.step (s : SubRun) : SubOp → SubRun
  | .subscribe topic =>
      let result := s.tables.nngSubSubscribe n sock topic
      ⟨result.2, if result.1 = .ok then topic ::ₘ s.kept else s.kept⟩
  | .unsubscribe topic behind =>
      let result := s.tables.nngSubUnsubscribe n sock behind topic
      ⟨result.2, if result.1 = .ok then s.kept.erase topic else s.kept⟩
  | .accepts _ => s

/-- The calls answer as the multiset says. -/
def MultisetLaw (id : SocketId) (s : SubRun) : SubOp → Prop
  | .subscribe topic =>
      (s.tables.nngSubSubscribe n sock topic).1 = .ok ↔
        topic.length ≤ maxTopicLen ∧ s.kept.card < maxSubs
  | .unsubscribe topic behind =>
      ((s.tables.nngSubUnsubscribe n sock behind topic).1 = .ok ↔ topic ∈ s.kept) ∧
        (topic ∉ s.kept → s.tables.nngSubUnsubscribe n sock behind topic = (.enoent, s.tables))
  | .accepts body => (s.tables id).accepts body = true ↔ ∃ topic ∈ s.kept, topic <+: body

/-- What stands at a row in use is no topic longer than a row, by its low length byte and as many
bytes from the row on as the topic has. -/
def LongDiffers (id : SocketId) (s : SubRun) : SubOp → Prop
  | .unsubscribe topic behind =>
      maxTopicLen < topic.length → ∀ i, ¬(s.tables id).Agrees behind topic i
  | _ => True

variable {n sock} {id : SocketId} {s : SubRun} {op : SubOp}

/-- An open SUB socket. -/
structure Subscribes (n : Nng) (sock : NngSocket) (id : SocketId) : Prop where
  socket : n.valid? sock.id = some id
  protocol : (n.socketPool id).protocol = Protocol.sub0.code

/-- The table holds what the caller's multiset does. -/
def Recorded (id : SocketId) (s : SubRun) : Prop := ((s.tables id).entries : Multiset _) = s.kept

theorem Subscribes.onTable (live : Subscribes n sock id) (tables : SubTables)
    (call : SubTable → Rv × SubTable) :
    tables.onTable n sock call =
      ((call (tables id)).1, Function.update tables id (call (tables id)).2) := by
  rw [SubTables.onTable, live.socket]
  exact if_neg (not_not.mpr live.protocol)

theorem multisetLaw_iff (live : Subscribes n sock id) (recorded : Recorded id s) :
    MultisetLaw n sock id s op ↔ LongDiffers id s op := by
  have held : ∀ topic, topic ∈ s.kept ↔ topic ∈ (s.tables id).entries := fun topic => by
    rw [← recorded, Multiset.mem_coe]
  cases op with
  | subscribe topic =>
      refine iff_of_true ?_ trivial
      simp only [MultisetLaw, SubTables.nngSubSubscribe, live.onTable]
      rw [SubTable.subscribe_eq_ok_iff, ← recorded, Multiset.coe_card, SubTable.length_entries]
  | unsubscribe topic behind =>
      simp only [MultisetLaw, LongDiffers, SubTables.nngSubUnsubscribe, live.onTable, held]
      constructor
      · rintro ⟨answer, -⟩ long i agrees
        have present := answer.mp (SubTable.unsubscribe_eq_ok_iff.mpr ⟨i, agrees⟩)
        have := SubTable.length_of_mem_entries present
        omega
      · intro differs
        rcases SubTable.unsubscribe_cases differs with ⟨refused, absent⟩ | ⟨ok, removed⟩
        · rw [refused, Function.update_eq_self]
          simp [absent]
        · have present := removed.mem_iff.mp List.mem_cons_self
          exact ⟨iff_of_true ok present, fun absent => absurd present absent⟩
  | accepts body =>
      refine iff_of_true ?_ trivial
      simp only [MultisetLaw, SubTable.accepts_iff, held]

theorem Recorded.step (live : Subscribes n sock id) (recorded : Recorded id s)
    (differs : LongDiffers id s op) : Recorded id (s.step n sock op) := by
  cases op with
  | subscribe topic =>
      simp only [Recorded, SubRun.step, SubTables.nngSubSubscribe, live.onTable,
        Function.update_self]
      split
      case isTrue ok =>
        rw [SubTable.entries_subscribe ok, ← recorded, Multiset.cons_coe]
        exact Multiset.coe_eq_coe.mpr (List.perm_append_singleton _ _)
      case isFalse refused =>
        rw [SubTable.subscribe_refused refused]
        exact recorded
  | unsubscribe topic behind =>
      simp only [Recorded, SubRun.step, SubTables.nngSubUnsubscribe, live.onTable,
        Function.update_self]
      rcases SubTable.unsubscribe_cases differs with ⟨refused, -⟩ | ⟨ok, removed⟩
      · rw [refused, if_neg (by simp)]
        exact recorded
      · rw [if_pos ok, ← recorded, ← Multiset.coe_eq_coe.mpr removed, ← Multiset.cons_coe,
          Multiset.erase_cons_head]
  | accepts body => exact recorded

/-- On an open SUB socket without topics, all answers are those of the multiset just if no topic
longer than a row is given that agrees with a row of the table. -/
theorem subscriptions_multiset_iff (live : Subscribes n sock id) (tables : SubTables)
    (fresh : (tables id).numTopics = 0) (ops : List SubOp) :
    Runs.Meets (SubRun.step n sock) (MultisetLaw n sock id) ⟨tables, 0⟩ ops ↔
      Runs.Meets (SubRun.step n sock) (LongDiffers id) ⟨tables, 0⟩ ops := by
  have start : Recorded id ⟨tables, 0⟩ := by
    have none : (tables id).entries = [] := List.eq_nil_of_length_eq_zero (by simpa using fresh)
    rw [Recorded, none]
    rfl
  constructor
  · intro run
    refine (Runs.meets_congr start (fun s op recorded law => ?_)
      (fun s op recorded _ => multisetLaw_iff live recorded) run).mp run
    exact recorded.step live ((multisetLaw_iff live recorded).mp law)
  · intro run
    exact (Runs.meets_congr start (fun s op recorded differs => recorded.step live differs)
      (fun s op recorded _ => multisetLaw_iff live recorded) run).mpr run

end Run

/-- The tables as they are before anything is stored in them. -/
def zeroTables : SubTables := fun _ =>
  { topics := fun _ _ => 0
    topicLen := fun _ => 0
    numTopics := 0
    few := Nat.zero_le _
    short := fun _ _ => Nat.zero_le _ }

/-- One SUB socket. -/
def listener : Nng := (nngSocketCreate (nngInit (boot sampleImage).nng) Protocol.sub0.code).2

theorem listener_subscribes : Subscribes listener (socketAt 0) 0 := by
  constructor <;> decide +kernel

theorem subscriptions_multiset_iff_listener :
    Runs.Meets (SubRun.step listener (socketAt 0)) (MultisetLaw listener (socketAt 0) 0)
      ⟨zeroTables, 0⟩
      [.subscribe [7], .subscribe [7, 8], .unsubscribe [7] fun _ => 0, .accepts [7, 9],
        .unsubscribe (List.replicate 258 0) fun _ => 0, .accepts [7, 8, 9]] := by
  refine (subscriptions_multiset_iff listener_subscribes zeroTables rfl _).mpr ?_
  refine ⟨trivial, trivial, fun long => absurd long (by decide), trivial, fun _ => ?_, trivial,
    trivial⟩
  decide +kernel

/-- With the wildcard subscribed, 256 zero bytes can be unsubscribed: the stored length 0 is the
low byte of 256, and the eight rows are 256 zero bytes. The wildcard is gone with it. -/
theorem long_topic_removed :
    let s := (SubRun.mk zeroTables 0).step listener (socketAt 0) (.subscribe [])
    let topic : List Byte := List.replicate 256 0
    let result := s.tables.nngSubUnsubscribe listener (socketAt 0) (fun _ => 0) topic
    s.kept = {[]} ∧ topic ∉ s.kept ∧ result.1 = .ok ∧ (result.2 0).accepts [] = false ∧
      ¬MultisetLaw listener (socketAt 0) 0 s (.unsubscribe topic fun _ => 0) := by
  intro s topic result
  have kept : s.kept = {[]} := by decide +kernel
  have absent : topic ∉ s.kept := by
    rw [kept]
    decide
  have ok : result.1 = .ok := by decide +kernel
  exact ⟨kept, absent, ok, by decide +kernel, fun law => absent (law.1.mp ok)⟩

end LughOS.Kernel
