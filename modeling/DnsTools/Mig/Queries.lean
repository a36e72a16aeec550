import DnsTools.Lib.Cursor
import DnsTools.Platform

/-!
# Building the queries

`make_queries` and `get_next_query` of `main.c`. All queries of a run are encoded into one buffer
before the run starts, each with its size as a `size_t` in front. The names come from a buffer of
NUL-terminated strings closed by an empty string, and are used cyclically.

## Two passes

The function makes two passes over the names: the first adds up the size of the buffer, in `size_t`
and so modulo `2^64`, and the second fills it. Both are loops on the query number, here recursions
on the number of queries still to come. `nameWalk` is the walk over the names that the two passes
share; it is not a function of the source.

Everything the passes do is a matter of the names that the walk visits. The first one adds up the
sizes of their frames, and the second emits the fields of these frames, one after another. So there
is one lemma for each pass, by induction on the walk, and what is stored is then known as a list of
messages, `queryMessages`, without any loop.

If the sum of the sizes wraps, the buffer is too small and the second pass leaves it, which the
model takes for a failure. So a buffer that is returned is filled to its end (`HoldsQueries`).

## Main results

* `queriesSize_of_nameWalk`, `writeQueries_of_nameWalk` — the two passes
* `makeQueries_spec`, `makeQueries_of_nameWalk` — what is returned, and when
* `HoldsQueries.readQueries` — `get_next_query` goes from query to query
-/

namespace DnsTools

open Memory Endian

/-- `CLIENT_ID_LENGTH`. -/
def clientIdLength : ℕ := 16

/-- The array `additional`: an OPT record up to the client id its only option carries. -/
def additional : List UInt8 :=
  [0x00, 0x00, 0x29, 0x10, 0x00, 0x00, 0x00, 0x80, 0x00, 0x00, 0x14, 0xff, 0xee, 0x00, 0x10]

/-- A client id. -/
structure ClientId where
  /-- Its bytes. -/
  bytes : List UInt8
  /-- `CLIENT_ID_LENGTH` of them. -/
  length_bytes : bytes.length = clientIdLength
deriving DecidableEq, Repr

/-- `name += name_size; if (*name == '\0') name = names;`. -/
def nextName (names : Block) (name nameSize : ℕ) : Option ℕ := do
  let c ← names.load (name + nameSize) 1
  return if c = [0] then 0 else name + nameSize

/-- The first loop of `make_queries`, from a name and the total so far. -/
def queriesSize (names : Block) (client : Option ClientId) : ℕ → ℕ → ℕ → Option ℕ
  | 0, _, total => some total
  | left + 1, name, total => do
    let nameSize := (← names.strlen name) + 1
    let size := sizeofSize + sizeofDnsQuery + nameSize + 2 * sizeofShort
    let size := if client.isSome then size + additional.length + clientIdLength else size
    let name ← nextName names name nameSize
    queriesSize names client left name ((total + size) % sizeModulus)

/-- The second loop of `make_queries`, from query number `i` and a name. -/
def writeQueries (names : Block) (client : Option ClientId) : ℕ → ℕ → ℕ → Cursor → Option Cursor
  | 0, _, _, offset => some offset
  | left + 1, i, name, offset => do
    let nameSize := (← names.strlen name) + 1
    let size := sizeofDnsQuery + nameSize + 2 * sizeofShort
    let size := if client.isSome then size + additional.length + clientIdLength else size
    let offset ← offset.emit (leBytes sizeofSize size)
    let offset ← offset.emits
      [leBytes sizeofShort (htons (UInt16.ofNat (i % ushrtMax))).toNat,
        leBytes sizeofShort (htons 0x0100).toNat,
        leBytes sizeofShort (htons 1).toNat,
        leBytes sizeofShort (htons 0).toNat,
        leBytes sizeofShort (htons 0).toNat,
        leBytes sizeofShort (htons (if client.isSome then 1 else 0)).toNat]
    let qName ← names.load name nameSize
    let offset ← offset.emit qName
    let name ← nextName names name nameSize
    let offset ← offset.emits
      [leBytes sizeofShort (htons 0x0001).toNat, leBytes sizeofShort (htons 0x0001).toNat]
    let offset ← match client with
      | some client => offset.emits [additional, client.bytes]
      | none => some offset
    writeQueries names client left (i + 1) name offset

/-- `make_queries`; the inner `none` is the return value `NULL`. -/
def makeQueries (malloc : Malloc) (names : Block) (count : ℕ) (client : Option ClientId) :
    Option (Option Block) := do
  let total ← queriesSize names client count 0 0
  match malloc.alloc total with
  | none => return none
  | some buffer =>
    let offset ← writeQueries names client count 0 0 ⟨buffer, 0⟩
    return some offset.block

/-- What `get_next_query` returns and stores through its parameters. -/
structure NextQuery where
  /-- Where the query lies. -/
  query : ℕ
  /-- Its size. -/
  size : ℕ
  /-- Where the next one starts. -/
  offset : ℕ
deriving DecidableEq, Repr

/-- `get_next_query`. -/
def getNextQuery (queries : Block) (offset : ℕ) : Option NextQuery := do
  let size := leNat (← queries.load offset sizeofSize)
  let offset := offset + sizeofSize
  let query := offset
  let offset := offset + size
  return { query, size, offset }

/-! ### The walk over the names -/

/-- The strings that `n` turns of either loop visit, terminators included. -/
def nameWalk (names : Block) : ℕ → ℕ → Option (List (List UInt8))
  | 0, _ => some []
  | left + 1, name => do
    let nameSize := (← names.strlen name) + 1
    let qName ← names.load name nameSize
    let name ← nextName names name nameSize
    let qNames ← nameWalk names left name
    return qName :: qNames

theorem length_of_nameWalk {names : Block} {n name : ℕ} {ws : List (List UInt8)}
    (h : nameWalk names n name = some ws) : ws.length = n := by
  induction n generalizing name ws with
  | zero =>
    rw [nameWalk, Option.some.injEq] at h
    rw [← h, List.length_nil]
  | succ n ih =>
    simp only [nameWalk, Option.bind_eq_bind, Option.bind_eq_some_iff] at h
    obtain ⟨_, _, _, _, _, _, rest, hrest, h⟩ := h
    simp only [Option.pure_def, Option.some.injEq] at h
    rw [← h, List.length_cons, ih hrest]

/-! ### The bytes of a query -/

/-- The bytes of query number `i` for a name with its terminator. -/
def queryMessage (client : Option ClientId) (i : ℕ) (qName : List UInt8) : List UInt8 :=
  (beBytes 2 (i % ushrtMax) ++ (beBytes 2 0x0100 ++ (beBytes 2 1 ++ (beBytes 2 0 ++
    (beBytes 2 0 ++ beBytes 2 (if client.isSome then 1 else 0)))))) ++
    (qName ++ (beBytes 2 1 ++ beBytes 2 1)) ++
    (match client with
      | some client => additional ++ client.bytes
      | none => [])

/-- A query with its size in front, as it lies in the buffer. -/
def frame (message : List UInt8) : List UInt8 := leBytes sizeofSize message.length ++ message

/-- The queries for a list of names, numbered from `i` on. -/
def queryMessages (client : Option ClientId) (i : ℕ) (ws : List (List UInt8)) :
    List (List UInt8) :=
  (ws.zipIdx i).map fun p => queryMessage client p.2 p.1

@[simp] theorem queryMessages_nil (client : Option ClientId) (i : ℕ) :
    queryMessages client i [] = [] := rfl

@[simp] theorem queryMessages_cons (client : Option ClientId) (i : ℕ) (w : List UInt8)
    (ws : List (List UInt8)) :
    queryMessages client i (w :: ws) = queryMessage client i w :: queryMessages client (i + 1) ws :=
  rfl

@[simp] theorem length_queryMessages (client : Option ClientId) (i : ℕ) (ws : List (List UInt8)) :
    (queryMessages client i ws).length = ws.length := by
  simp [queryMessages]

theorem getElem?_queryMessages (client : Option ClientId) (ws : List (List UInt8)) (k : ℕ) :
    (queryMessages client 0 ws)[k]? = ws[k]?.map (queryMessage client k) := by
  rw [queryMessages, List.getElem?_map, List.getElem?_zipIdx, Option.map_map, Nat.zero_add]
  rfl

/-- The size of a query depends on its name and on the presence of a client id only. -/
def querySize (client : Option ClientId) (nameSize : ℕ) : ℕ :=
  sizeofDnsQuery + nameSize + 2 * sizeofShort +
    (if client.isSome then additional.length + clientIdLength else 0)

theorem length_queryMessage (client : Option ClientId) (i : ℕ) (qName : List UInt8) :
    (queryMessage client i qName).length = querySize client qName.length := by
  cases client with
  | none =>
    simp only [queryMessage, querySize, List.length_append, length_beBytes, List.length_nil,
      sizeofDnsQuery, sizeofShort, Option.isSome_none, Bool.false_eq_true, if_false]
    omega
  | some client =>
    simp only [queryMessage, querySize, List.length_append, length_beBytes, client.length_bytes,
      sizeofDnsQuery, sizeofShort, Option.isSome_some, if_true]
    omega

@[simp] theorem length_frame (message : List UInt8) :
    (frame message).length = sizeofSize + message.length := by
  simp [frame]

/-- The total size of the frames does not depend on the query numbers. -/
theorem length_frames (client : Option ClientId) (i : ℕ) (ws : List (List UInt8)) :
    ((queryMessages client i ws).flatMap frame).length
      = (ws.map fun w => sizeofSize + querySize client w.length).sum := by
  induction ws generalizing i with
  | nil => rfl
  | cons w ws ih =>
    rw [queryMessages_cons, List.flatMap_cons, List.length_append, ih, length_frame,
      length_queryMessage, List.map_cons, List.sum_cons]

/-! ### The first pass -/

/-- The first pass adds up the frames the second one will write. -/
theorem queriesSize_of_nameWalk {names : Block} {client : Option ClientId} {n name i : ℕ}
    {ws : List (List UInt8)} (h : nameWalk names n name = some ws) {total : ℕ}
    (htotal : total < sizeModulus) :
    queriesSize names client n name total =
      some ((total + ((queryMessages client i ws).flatMap frame).length) % sizeModulus) := by
  induction n generalizing name ws total i with
  | zero =>
    rw [nameWalk, Option.some.injEq] at h
    rw [← h, queriesSize]
    simp [Nat.mod_eq_of_lt htotal]
  | succ n ih =>
    simp only [nameWalk, Option.bind_eq_bind, Option.bind_eq_some_iff] at h
    obtain ⟨len, hlen, w, hw, next, hnext, rest, hrest, h⟩ := h
    simp only [Option.pure_def, Option.some.injEq] at h
    subst h
    have hwlen : w.length = len + 1 := Block.length_of_load hw
    have hsize : (if client.isSome = true then
          sizeofSize + sizeofDnsQuery + (len + 1) + 2 * sizeofShort + additional.length +
            clientIdLength
        else sizeofSize + sizeofDnsQuery + (len + 1) + 2 * sizeofShort)
        = (frame (queryMessage client i w)).length := by
      rw [length_frame, length_queryMessage, querySize, hwlen]
      split <;> omega
    simp only [queriesSize, hlen, hnext, Option.bind_eq_bind, Option.bind_some, hsize]
    rw [ih hrest (Nat.mod_lt _ (by decide)) (i := i + 1), Nat.mod_add_mod, queryMessages_cons,
      List.flatMap_cons, List.length_append, Nat.add_assoc]

/-- If the first pass comes to an end, the walk was well defined. -/
theorem nameWalk_of_queriesSize {names : Block} {client : Option ClientId} {n name total t : ℕ}
    (h : queriesSize names client n name total = some t) :
    ∃ ws, nameWalk names n name = some ws := by
  induction n generalizing name total with
  | zero => exact ⟨[], rfl⟩
  | succ n ih =>
    simp only [queriesSize, Option.bind_eq_bind, Option.bind_eq_some_iff] at h
    obtain ⟨len, hlen, next, hnext, h⟩ := h
    obtain ⟨ws, hws⟩ := ih h
    obtain ⟨cs, rfl, -, hcs⟩ := Block.holds_of_strlen hlen
    have hload := hcs.load
    rw [List.length_append, List.length_singleton] at hload
    refine ⟨(cs ++ [0]) :: ws, ?_⟩
    simp only [nameWalk, hlen, hload, hnext, hws, Option.bind_eq_bind, Option.bind_some]
    rfl

/-! ### The second pass -/

/-- The fields of a frame in the order in which the second loop writes them. -/
def frameFields (client : Option ClientId) (i : ℕ) (w : List UInt8) : List (List UInt8) :=
  [leBytes sizeofSize (querySize client w.length)] ++
    ([leBytes sizeofShort (htons (UInt16.ofNat (i % ushrtMax))).toNat,
        leBytes sizeofShort (htons 0x0100).toNat,
        leBytes sizeofShort (htons 1).toNat,
        leBytes sizeofShort (htons 0).toNat,
        leBytes sizeofShort (htons 0).toNat,
        leBytes sizeofShort (htons (if client.isSome then 1 else 0)).toNat] ++
      ([w] ++
        ([leBytes sizeofShort (htons 0x0001).toNat, leBytes sizeofShort (htons 0x0001).toNat] ++
          (match client with
            | some client => [additional, client.bytes]
            | none => []))))

theorem flatten_frameFields (client : Option ClientId) (i : ℕ) (w : List UInt8) :
    (frameFields client i w).flatten = frame (queryMessage client i w) := by
  have hid : (UInt16.ofNat (i % ushrtMax)).toNat = i % ushrtMax := by
    rw [UInt16.toNat_ofNat', ushrtMax]
    omega
  rw [frame, length_queryMessage]
  cases client with
  | none => simp [frameFields, queryMessage, leBytes_htons, hid]
  | some client => simp [frameFields, queryMessage, leBytes_htons, hid]

/-- One turn of the second loop emits the fields of one frame. -/
theorem writeQueries_succ {names : Block} {client : Option ClientId} {left i name next len : ℕ}
    {w : List UInt8} (c : Cursor) (hlen : names.strlen name = some len)
    (hw : names.load name (len + 1) = some w) (hnext : nextName names name (len + 1) = some next) :
    writeQueries names client (left + 1) i name c =
      (c.emits (frameFields client i w)).bind
        fun c' => writeQueries names client left (i + 1) next c' := by
  have hwlen : w.length = len + 1 := Block.length_of_load hw
  have hsize : (if client.isSome = true then
        sizeofDnsQuery + (len + 1) + 2 * sizeofShort + additional.length + clientIdLength
      else sizeofDnsQuery + (len + 1) + 2 * sizeofShort) = querySize client w.length := by
    rw [querySize, hwlen]
    split <;> omega
  simp only [writeQueries, hlen, hw, hnext, hsize, frameFields, Cursor.emits_append,
    Cursor.emits_singleton, Option.bind_eq_bind, Option.bind_some, Option.bind_assoc]
  cases client with
  | none => rfl
  | some client => rfl

/-- The fields of all frames for a list of names. -/
def queryFields (client : Option ClientId) (i : ℕ) (ws : List (List UInt8)) :
    List (List UInt8) :=
  (ws.zipIdx i).flatMap fun p => frameFields client p.2 p.1

theorem flatten_queryFields (client : Option ClientId) (i : ℕ) (ws : List (List UInt8)) :
    (queryFields client i ws).flatten = (queryMessages client i ws).flatMap frame := by
  induction ws generalizing i with
  | nil => rfl
  | cons w ws ih =>
    have hsplit : queryFields client i (w :: ws)
        = frameFields client i w ++ queryFields client (i + 1) ws := rfl
    rw [hsplit, List.flatten_append, flatten_frameFields, ih, queryMessages_cons,
      List.flatMap_cons]

/-- **The second pass.** It emits the frames for the names the walk visits, one after another. -/
theorem writeQueries_of_nameWalk {names : Block} {client : Option ClientId} {n i name : ℕ}
    {ws : List (List UInt8)} (h : nameWalk names n name = some ws) (c : Cursor) :
    writeQueries names client n i name c = c.emits (queryFields client i ws) := by
  induction n generalizing name i ws c with
  | zero =>
    rw [nameWalk, Option.some.injEq] at h
    subst h
    rfl
  | succ n ih =>
    simp only [nameWalk, Option.bind_eq_bind, Option.bind_eq_some_iff] at h
    obtain ⟨len, hlen, w, hw, next, hnext, rest, hrest, h⟩ := h
    simp only [Option.pure_def, Option.some.injEq] at h
    subst h
    have hsplit : queryFields client i (w :: rest)
        = frameFields client i w ++ queryFields client (i + 1) rest := rfl
    rw [writeQueries_succ c hlen hw hnext, hsplit, Cursor.emits_append]
    exact congrArg _ (funext fun c' => ih hrest c')

/-! ### The buffer -/

/-- The queries lie in the buffer, frame after frame, and fill it. -/
structure HoldsQueries (queries : Block) (messages : List (List UInt8)) : Prop where
  /-- The frames. -/
  holds : queries.Holds 0 (messages.flatMap frame)
  /-- Nothing is left over. -/
  size : queries.size = (messages.flatMap frame).length
  /-- The sizes fit the field in front of each query. -/
  lt : (messages.flatMap frame).length < sizeModulus

/-- **What `make_queries` returns.** A buffer filled by the queries for the names of the walk. In
particular the first pass cannot have wrapped: the second would then have left the buffer. -/
theorem makeQueries_spec {malloc : Malloc} {names queries : Block} {count : ℕ}
    {client : Option ClientId} (h : makeQueries malloc names count client = some (some queries)) :
    ∃ ws, nameWalk names count 0 = some ws ∧ HoldsQueries queries (queryMessages client 0 ws) := by
  simp only [makeQueries, Option.bind_eq_bind, Option.bind_eq_some_iff] at h
  obtain ⟨total, htotal, h⟩ := h
  obtain ⟨ws, hws⟩ := nameWalk_of_queriesSize htotal
  rw [queriesSize_of_nameWalk (i := 0) hws (by decide), Nat.zero_add, Option.some.injEq] at htotal
  refine ⟨ws, hws, ?_⟩
  cases halloc : malloc.alloc total with
  | none => simp [halloc] at h
  | some buffer =>
    simp only [halloc, writeQueries_of_nameWalk hws, Option.bind_eq_some_iff] at h
    obtain ⟨c, hc, h⟩ := h
    simp only [Option.pure_def, Option.some.injEq] at h
    subst h
    have hemitted := Cursor.emitted_of_emits (Nat.zero_le _) hc
    rw [flatten_queryFields] at hemitted
    have hsize : c.block.size = total := hemitted.size.trans (malloc.size_alloc halloc)
    have hle := hemitted.holds.le
    have hlt : total < sizeModulus := htotal ▸ Nat.mod_lt _ (by decide)
    simp only [Nat.zero_add] at hle
    have hmod : ((queryMessages client 0 ws).flatMap frame).length % sizeModulus
        = ((queryMessages client 0 ws).flatMap frame).length := Nat.mod_eq_of_lt (by omega)
    exact ⟨hemitted.holds, by omega, by omega⟩

/-- `make_queries` returns a buffer when the walk is defined, the total does not wrap and the
allocation succeeds. -/
theorem makeQueries_of_nameWalk {malloc : Malloc} {names buffer : Block} {count : ℕ}
    {client : Option ClientId} {ws : List (List UInt8)} (hws : nameWalk names count 0 = some ws)
    (hlt : ((queryMessages client 0 ws).flatMap frame).length < sizeModulus)
    (halloc : malloc.alloc ((queryMessages client 0 ws).flatMap frame).length = some buffer) :
    queriesSize names client count 0 0
        = some ((queryMessages client 0 ws).flatMap frame).length ∧
      ∃ c, writeQueries names client count 0 0 ⟨buffer, 0⟩ = some c ∧
        c.off = ((queryMessages client 0 ws).flatMap frame).length ∧
        makeQueries malloc names count client = some (some c.block) := by
  have htotal : queriesSize names client count 0 0
      = some ((queryMessages client 0 ws).flatMap frame).length := by
    rw [queriesSize_of_nameWalk (i := 0) hws (by decide), Nat.zero_add, Nat.mod_eq_of_lt hlt]
  obtain ⟨c, hc, hemitted⟩ := Cursor.emits_of_le ⟨buffer, 0⟩ (queryFields client 0 ws)
    (by rw [flatten_queryFields, Nat.zero_add, malloc.size_alloc halloc])
  rw [flatten_queryFields] at hemitted
  rw [← writeQueries_of_nameWalk hws] at hc
  refine ⟨htotal, c, hc, by rw [hemitted.off, Nat.zero_add], ?_⟩
  simp only [makeQueries, htotal, halloc, hc, Option.bind_eq_bind, Option.bind_some]
  rfl

/-! ### Reading the queries back -/

/-- `get_next_query` undoes the framing. -/
theorem getNextQuery_of_holds {queries : Block} {off : ℕ} {message : List UInt8}
    (h : queries.Holds off (frame message)) (hlt : message.length < sizeModulus) :
    getNextQuery queries off =
        some ⟨off + sizeofSize, message.length, off + (frame message).length⟩ ∧
      queries.Holds (off + sizeofSize) message := by
  rw [frame, Block.holds_append, length_leBytes] at h
  obtain ⟨hsize, hmessage⟩ := h
  have hload := hsize.load
  rw [length_leBytes] at hload
  have hlen : leNat (leBytes sizeofSize message.length) = message.length :=
    leNat_leBytes_of_lt hlt
  refine ⟨?_, hmessage⟩
  simp only [getNextQuery, hload, hlen, Option.bind_eq_bind, Option.bind_some, length_frame]
  simp only [Option.pure_def, Nat.add_assoc]

/-- Where query number `i` is framed. -/
def queryOffset (messages : List (List UInt8)) (i : ℕ) : ℕ := Block.chunkOffset frame messages i

/-- The frame of query number `i`. -/
theorem HoldsQueries.frame_at {queries : Block} {messages : List (List UInt8)}
    (h : HoldsQueries queries messages) {i : ℕ} (hi : i < messages.length) :
    queries.Holds (queryOffset messages i) (frame messages[i]) ∧
      messages[i].length < sizeModulus := by
  have hholds := h.holds.chunk hi
  have hle := Block.length_chunk_le frame hi
  have hlt := h.lt
  rw [Nat.zero_add, Block.holds_append] at hholds
  rw [length_frame] at hle
  exact ⟨hholds.1, by omega⟩

/-- `get_next_query` steps from query to query. -/
theorem HoldsQueries.getNextQuery {queries : Block} {messages : List (List UInt8)}
    (h : HoldsQueries queries messages) {i : ℕ} (hi : i < messages.length) :
    ∃ next, DnsTools.getNextQuery queries (queryOffset messages i) = some next ∧
      next.size = messages[i].length ∧ next.offset = queryOffset messages (i + 1) ∧
      queries.load next.query next.size = some messages[i] := by
  obtain ⟨hframe, hlt⟩ := h.frame_at hi
  obtain ⟨hget, hmessage⟩ := getNextQuery_of_holds hframe hlt
  exact ⟨_, hget, rfl, (Block.chunkOffset_succ hi).symm, hmessage.load⟩

/-- The queries that `n` successive calls of `get_next_query` return, and the offset they leave. -/
def readQueries (queries : Block) : ℕ → ℕ → Option (List (List UInt8) × ℕ)
  | 0, offset => some ([], offset)
  | n + 1, offset => do
    let next ← DnsTools.getNextQuery queries offset
    let query ← queries.load next.query next.size
    let (rest, offset) ← readQueries queries n next.offset
    return (query :: rest, offset)

/-- Reading from query number `i` on gives the remaining queries. -/
theorem HoldsQueries.readQueries_drop {queries : Block} {messages : List (List UInt8)}
    (h : HoldsQueries queries messages) {n i : ℕ} (hn : i + n = messages.length) :
    readQueries queries n (queryOffset messages i) = some (messages.drop i, queries.size) := by
  induction n generalizing i with
  | zero =>
    rw [Nat.add_zero] at hn
    rw [readQueries, hn, List.drop_length, queryOffset, Block.chunkOffset_length, h.size]
  | succ n ih =>
    have hi : i < messages.length := by omega
    obtain ⟨next, hget, -, hoffset, hload⟩ := h.getNextQuery hi
    simp only [readQueries, hget, hload, hoffset, ih (by omega : i + 1 + n = messages.length),
      Option.bind_eq_bind, Option.bind_some]
    rw [List.drop_eq_getElem_cons hi]
    rfl

/-- **Framing is undone.** Reading from the start of the buffer gives every query in order and
ends where the buffer does. -/
theorem HoldsQueries.readQueries {queries : Block} {messages : List (List UInt8)}
    (h : HoldsQueries queries messages) :
    DnsTools.readQueries queries messages.length 0 = some (messages, queries.size) :=
  h.readQueries_drop (i := 0) (Nat.zero_add _)

/-- The queries read back from what `make_queries` returns are those for the names of the walk. -/
theorem readQueries_of_makeQueries {malloc : Malloc} {names queries : Block} {count : ℕ}
    {client : Option ClientId} (h : makeQueries malloc names count client = some (some queries)) :
    ∃ ws, nameWalk names count 0 = some ws ∧
      readQueries queries count 0 = some (queryMessages client 0 ws, queries.size) := by
  obtain ⟨ws, hws, hholds⟩ := makeQueries_spec h
  have hread := hholds.readQueries
  rw [length_queryMessages, length_of_nameWalk hws] at hread
  exact ⟨ws, hws, hread⟩

end DnsTools
