import Burrow.Lib.CBlock
import Burrow.Lib.Machine
import Burrow.Http.Process
import Mathlib.Data.List.Forall2

/-!
# Transfer buffers

`user_buffer.c`: the block of bytes that libcurl writes a response to, or reads a body
from, in chunks of its own choice. A `size_t` is a `UInt64`. `alloc` says whether an
allocation succeeds, and `where` is called `place`.

Whatever the chunks are, a buffer holds what was written to it one chunk behind the
other, and hands out what it was made from (`userBuffer_faithful`). However libcurl
cuts a response, the buffer holds what `burrow_backend_http_process` finds in it
(`multiPerform_refined`).
-/

set_option autoImplicit false

namespace Burrow.Http

open CBlock

/-- `user_buffer_st` -/
structure UserBuffer where
  size : UInt64
  place : UInt64
  buf : Option (Block UInt8)
  malloced : Bool
deriving DecidableEq, Repr

/-- `user_buffer_create_sized`, which is handed a structure or allocates one. -/
def userBufferCreateSized (given : Bool) (data : Option (Block UInt8)) (dataSize : UInt64)
    (allocBuffer allocBuf : Bool) : Except Misuse (Option UserBuffer) :=
  if given || allocBuffer then
    match data with
    | none => .ok (some { size := 0, place := 0, buf := none, malloced := !given })
    | some data =>
        match malloc allocBuf dataSize.toNat with
        -- the structure is freed, also one that the caller has handed in
        | none => .ok none
        | some buf =>
            (memcpy buf 0 data 0 dataSize.toNat).map fun buf =>
              some { size := dataSize, place := 0, buf := some buf, malloced := !given }
  else .ok none

/-- `user_buffer_create` -/
def userBufferCreate (given : Bool) (data : Option (Block UInt8)) (allocBuffer allocBuf : Bool) :
    Except Misuse (Option UserBuffer) :=
  match data with
  | none => userBufferCreateSized given none 0 allocBuffer allocBuf
  | some block =>
      match strlen 0 block with
      | .error misuse => .error misuse
      | .ok n => userBufferCreateSized given (some block) (UInt64.ofNat n) allocBuffer allocBuf

/-- `user_buffer_get_text` -/
def userBufferGetText (buffer : UserBuffer) : Option (Block UInt8) := buffer.buf

/-- `user_buffer_get_size` -/
def userBufferGetSize (buffer : UserBuffer) : UInt64 := buffer.size

/-- The end of `user_buffer_curl_write_function`: the chunk is copied. -/
def copyIn (data : Block UInt8) (len : UInt64) (userd : UserBuffer) :
    Except Misuse (UInt64 × UserBuffer) :=
  match userd.buf with
  | none => .error .nullPointer
  | some buf =>
      (memcpy buf userd.place.toNat data 0 len.toNat).map fun buf =>
        (len, { userd with buf := some buf, place := userd.place + len })

/-- `user_buffer_curl_write_function`: what it returns, and the buffer. -/
def userBufferCurlWriteFunction (alloc : Bool) (data : Block UInt8) (size nmemb : UInt64)
    (userd : UserBuffer) : Except Misuse (UInt64 × UserBuffer) :=
  let len := size * nmemb
  if userd.size ≠ 0 then
    match userd.buf with
    | some buf =>
        match realloc alloc buf (userd.size + len).toNat with
        | none => .ok (0, userd)
        | some temp => copyIn data len { userd with buf := some temp, size := userd.size + len }
    | none => copyIn data len userd
  else
    match malloc alloc len.toNat with
    | none => .ok (0, { userd with size := len, buf := none })
    | some buf => copyIn data len { userd with size := len, buf := some buf, place := 0 }

/-- The end of `user_buffer_curl_read_function`: so many bytes are copied. -/
def copyOut (data : Block UInt8) (n : UInt64) (userd : UserBuffer) :
    Except Misuse (UInt64 × Block UInt8 × UserBuffer) :=
  match userd.buf with
  | none => .error .nullPointer
  | some buf =>
      (memcpy data 0 buf userd.place.toNat n.toNat).map fun data =>
        (n, data, { userd with place := userd.place + n })

/-- `user_buffer_curl_read_function`: what it returns, the block it has written to, and
the buffer. -/
def userBufferCurlReadFunction (data : Block UInt8) (size nmemb : UInt64) (userd : UserBuffer) :
    Except Misuse (UInt64 × Block UInt8 × UserBuffer) :=
  let len := size * nmemb
  let howMuchLeft := userd.size - userd.place
  if howMuchLeft = 0 then .ok (0, data, userd)
  else if howMuchLeft ≤ len then copyOut data howMuchLeft userd
  else copyOut data len userd

/-! ## Calls of libcurl -/

/-- A call of the write function: a chunk of `size * nmemb` bytes. -/
structure WriteCall where
  size : UInt64
  nmemb : UInt64
  data : List UInt8
  alloc : Bool
deriving DecidableEq, Repr

/-- The product does not overflow, and there are so many bytes. -/
structure WriteCall.Proper (call : WriteCall) : Prop where
  product : call.size.toNat * call.nmemb.toNat < 2 ^ 64
  data : call.data.length = call.size.toNat * call.nmemb.toNat

/-- A call of the read function, with the array that libcurl has for the bytes. -/
structure ReadCall where
  size : UInt64
  nmemb : UInt64
  data : Block UInt8
deriving DecidableEq, Repr

def ReadCall.capacity (call : ReadCall) : Nat := call.size.toNat * call.nmemb.toNat

/-- The product does not overflow, and the array has room for so many bytes. -/
structure ReadCall.Proper (call : ReadCall) : Prop where
  product : call.capacity < 2 ^ 64
  data : call.capacity ≤ call.data.length

def writeStep (call : WriteCall) (userd : UserBuffer) : Except Misuse UserBuffer :=
  (userBufferCurlWriteFunction call.alloc (holding call.data) call.size call.nmemb userd).map
    Prod.snd

/-- What a call of the write function returns. -/
def writeReturns (call : WriteCall) (userd : UserBuffer) : List UInt64 :=
  match userBufferCurlWriteFunction call.alloc (holding call.data) call.size call.nmemb userd with
  | .ok (returned, _) => [returned]
  | .error _ => []

def readStep (call : ReadCall) (userd : UserBuffer) : Except Misuse UserBuffer :=
  (userBufferCurlReadFunction call.data call.size call.nmemb userd).map (·.2.2)

/-- What a call of the read function returns, and the bytes that libcurl then takes. -/
def readReturns (call : ReadCall) (userd : UserBuffer) : List (UInt64 × Block UInt8) :=
  match userBufferCurlReadFunction call.data call.size call.nmemb userd with
  | .ok (returned, data, _) => [(returned, data.take returned.toNat)]
  | .error _ => []

/-! ## Writing -/

/-- The buffer has received these bytes. -/
structure UserBuffer.Received (userd : UserBuffer) (bytes : List UInt8) : Prop where
  size : userd.size.toNat = bytes.length
  place : userd.place = userd.size
  text : userd.buf.getD [] = holding bytes

theorem received_create {userd : UserBuffer} {allocBuf : Bool}
    (h : userBufferCreate false none true allocBuf = .ok (some userd)) : userd.Received [] := by
  cases h
  exact ⟨rfl, rfl, rfl⟩

/-- A buffer that has received something has a block for it. -/
theorem UserBuffer.Received.buf {userd : UserBuffer} {bytes : List UInt8}
    (h : userd.Received bytes) (hne : userd.size ≠ 0) : userd.buf = some (holding bytes) := by
  have htext := h.text
  cases hbuf : userd.buf with
  | some block =>
      rw [hbuf, Option.getD_some] at htext
      rw [htext]
  | none =>
      rw [hbuf, Option.getD_none] at htext
      have hzero : userd.size.toNat = 0 := by
        rw [h.size, ← length_holding, ← htext, List.length_nil]
      exact absurd (UInt64.toNat_inj.1 hzero) hne

/-- With room for just the chunk behind them, the bytes that are there are extended. -/
theorem copyIn_received (userd : UserBuffer) {bytes chunk : List UInt8} {len : UInt64}
    (hlen : len.toNat = chunk.length) (hplace : userd.place.toNat = bytes.length)
    (hsize : userd.size = userd.place + len) (hroom : bytes.length + chunk.length < 2 ^ 64)
    (hbuf : userd.buf = some (holding bytes ++ fresh chunk.length)) :
    ∃ userd', copyIn (holding chunk) len userd = .ok (len, userd') ∧
      userd'.Received (bytes ++ chunk) := by
  rw [copyIn, hbuf]
  dsimp only
  rw [hplace, hlen, memcpy_append]
  refine ⟨_, rfl, ?_, ?_, rfl⟩
  · change userd.size.toNat = _
    rw [hsize, UInt64.toNat_add, hplace, hlen, List.length_append, Nat.mod_eq_of_lt hroom]
  · exact hsize.symm

section Write

variable {userd : UserBuffer} {bytes : List UInt8} {call : WriteCall}

/-- A call for which there is no memory has nothing to write. -/
theorem nothing_written (hlen : (call.size * call.nmemb).toNat = call.data.length)
    (halloc : call.data ≠ [] → call.alloc = true) (hno : call.alloc = false) :
    call.data = [] ∧ call.size * call.nmemb = 0 := by
  have hempty : call.data = [] := by
    by_contra hne
    rw [halloc hne] at hno
    exact Bool.noConfusion hno
  refine ⟨hempty, UInt64.toNat_inj.1 ?_⟩
  rw [hlen, hempty]
  rfl

/-- The first bytes go to a new block. -/
theorem write_first (h : userd.Received []) (hsize : userd.size = 0)
    (hlen : (call.size * call.nmemb).toNat = call.data.length)
    (halloc : call.data ≠ [] → call.alloc = true) (hroom : call.data.length < 2 ^ 64) :
    ∃ userd', userBufferCurlWriteFunction call.alloc (holding call.data) call.size call.nmemb userd
        = .ok (call.size * call.nmemb, userd') ∧ userd'.Received call.data := by
  rw [userBufferCurlWriteFunction, if_neg (not_not.2 hsize)]
  cases hgranted : call.alloc with
  | true =>
      rw [malloc, if_pos rfl, hlen]
      exact copyIn_received
        { userd with
          size := call.size * call.nmemb, buf := some (fresh call.data.length), place := 0 }
        hlen rfl (UInt64.zero_add _).symm (by rw [List.length_nil, Nat.zero_add]; exact hroom) rfl
  | false =>
      obtain ⟨hempty, hzero⟩ := nothing_written hlen halloc hgranted
      rw [malloc, if_neg Bool.false_ne_true, hempty, hzero]
      refine ⟨_, rfl, rfl, ?_, rfl⟩
      change userd.place = 0
      rw [h.place, hsize]

/-- More bytes go to the block that is there, which grows by as many. -/
theorem write_more (h : userd.Received bytes) (hsize : userd.size ≠ 0)
    (hlen : (call.size * call.nmemb).toNat = call.data.length)
    (halloc : call.data ≠ [] → call.alloc = true)
    (hroom : bytes.length + call.data.length < 2 ^ 64) :
    ∃ userd', userBufferCurlWriteFunction call.alloc (holding call.data) call.size call.nmemb userd
        = .ok (call.size * call.nmemb, userd') ∧ userd'.Received (bytes ++ call.data) := by
  have hgrown : (userd.size + call.size * call.nmemb).toNat =
      bytes.length + call.data.length := by
    rw [UInt64.toNat_add, h.size, hlen, Nat.mod_eq_of_lt hroom]
  rw [userBufferCurlWriteFunction, if_pos hsize, h.buf hsize]
  dsimp only
  rw [hgrown]
  cases hgranted : call.alloc with
  | true =>
      rw [realloc_grow]
      exact copyIn_received
        { userd with
          buf := some (holding bytes ++ fresh call.data.length)
          size := userd.size + call.size * call.nmemb }
        hlen (by rw [← h.size, ← h.place]) (by rw [h.place]) hroom rfl
  | false =>
      obtain ⟨hempty, hzero⟩ := nothing_written hlen halloc hgranted
      rw [CBlock.realloc, if_neg Bool.false_ne_true, hempty, hzero, List.append_nil]
      exact ⟨userd, rfl, h⟩

/-- **A chunk is received.** -/
theorem write_received (h : userd.Received bytes) (hcall : call.Proper)
    (halloc : call.data ≠ [] → call.alloc = true)
    (hroom : bytes.length + call.data.length < 2 ^ 64) :
    ∃ userd', userBufferCurlWriteFunction call.alloc (holding call.data) call.size call.nmemb userd
        = .ok (call.size * call.nmemb, userd') ∧
      (call.size * call.nmemb).toNat = call.data.length ∧
      userd'.Received (bytes ++ call.data) := by
  have hlen : (call.size * call.nmemb).toNat = call.data.length := by
    rw [UInt64.toNat_mul, hcall.data, Nat.mod_eq_of_lt hcall.product]
  by_cases hsize : userd.size = 0
  · have hbytes : bytes = [] := List.length_eq_zero_iff.1 (by rw [← h.size, hsize]; rfl)
    subst hbytes
    obtain ⟨userd', hwrite, hreceived⟩ := write_first h hsize hlen halloc (by omega)
    exact ⟨userd', hwrite, hlen, hreceived⟩
  · obtain ⟨userd', hwrite, hreceived⟩ := write_more h hsize hlen halloc hroom
    exact ⟨userd', hwrite, hlen, hreceived⟩

end Write

/-- Chunks that end up in one block, whose size is a `size_t`: there is memory for each
of them that is not empty. -/
structure Writable (calls : List WriteCall) : Prop where
  proper : ∀ call ∈ calls, call.Proper
  alloc : ∀ call ∈ calls, call.data ≠ [] → call.alloc = true
  total : (calls.flatMap WriteCall.data).length < 2 ^ 64

/-- From a buffer that has received some bytes, every chunk is received behind them. -/
theorem writes_received {calls : List WriteCall} {userd : UserBuffer} {bytes : List UInt8}
    (h : userd.Received bytes) (hproper : ∀ call ∈ calls, call.Proper)
    (halloc : ∀ call ∈ calls, call.data ≠ [] → call.alloc = true)
    (htotal : bytes.length + (calls.flatMap WriteCall.data).length < 2 ^ 64) :
    ∃ returned userd', Machine.Shows writeStep writeReturns calls userd returned userd' ∧
      returned.map UInt64.toNat = calls.map (·.data.length) ∧
      userd'.Received (bytes ++ calls.flatMap WriteCall.data) := by
  induction calls generalizing userd bytes with
  | nil =>
      refine ⟨[], userd, Machine.Shows.nil _ _ _, rfl, ?_⟩
      rw [List.flatMap_nil, List.append_nil]
      exact h
  | cons call calls ih =>
      rw [List.flatMap_cons, List.length_append] at htotal
      obtain ⟨userd₁, hwrite, hlen, hreceived⟩ := write_received h
        (hproper call List.mem_cons_self) (halloc call List.mem_cons_self) (by omega)
      obtain ⟨returned, userd', hshows, hreturned, hreceived'⟩ := ih hreceived
        (fun c hc => hproper c (List.mem_cons_of_mem _ hc))
        (fun c hc => halloc c (List.mem_cons_of_mem _ hc))
        (by rw [List.length_append]; omega)
      have hstep : writeStep call userd = .ok userd₁ := by
        rw [writeStep, hwrite]
        rfl
      have hfirst := Machine.Shows.single writeStep writeReturns hstep
      rw [writeReturns, hwrite] at hfirst
      refine ⟨_, userd', hfirst.append hshows, ?_, ?_⟩
      · rw [List.map_append, hreturned, List.map_cons, List.map_cons, List.map_nil, hlen,
          List.singleton_append]
      · rw [List.flatMap_cons, ← List.append_assoc]
        exact hreceived'

/-! ## Reading -/

/-- The buffer was made from the body, and so many bytes of it have been read. -/
structure UserBuffer.Offers (userd : UserBuffer) (body : List UInt8) (read : Nat) : Prop where
  size : userd.size.toNat = body.length
  place : userd.place.toNat = read
  le : read ≤ body.length
  buf : userd.buf = some (holding body)

theorem create_offers (body : List UInt8) {dataSize : UInt64}
    (hsize : body.length = dataSize.toNat) :
    ∃ userd, userBufferCreateSized false (some (holding body)) dataSize true true =
        .ok (some userd) ∧ userd.Offers body 0 := by
  have hcopy := memcpy_append [] body
  rw [holding_nil, List.nil_append, List.length_nil, List.nil_append, hsize] at hcopy
  have hmalloc : malloc true dataSize.toNat = some (fresh dataSize.toNat : Block UInt8) :=
    if_pos rfl
  rw [userBufferCreateSized, Bool.false_or, if_pos rfl, hmalloc]
  dsimp only
  rw [hcopy]
  exact ⟨_, rfl, hsize.symm, rfl, Nat.zero_le _, rfl⟩

/-- As many bytes are copied as there is room for, if the body has them. -/
theorem copyOut_offers {userd : UserBuffer} {body : List UInt8} {read : Nat}
    (h : userd.Offers body read) (data : Block UInt8) (n : UInt64)
    (hleft : read + n.toNat ≤ body.length) (hroom : n.toNat ≤ data.length) :
    ∃ data' userd', copyOut data n userd = .ok (n, data', userd') ∧
      data'.take n.toNat = holding ((body.drop read).take n.toNat) ∧
      userd'.Offers body (read + n.toNat) := by
  have hbody : body.length < 2 ^ 64 := h.size ▸ userd.size.toNat_lt
  have hpiece : (holding ((body.drop read).take n.toNat)).length = n.toNat := by
    rw [length_holding, List.length_take, List.length_drop]
    omega
  rw [copyOut, h.buf]
  dsimp only
  rw [h.place, memcpy_part hleft hroom]
  refine ⟨_, _, rfl, ?_, h.size, ?_, hleft, rfl⟩
  · rw [List.take_append, hpiece, Nat.sub_self, List.take_zero, List.append_nil]
    exact List.take_of_length_le (Nat.le_of_eq hpiece)
  · change (userd.place + n).toNat = _
    rw [UInt64.toNat_add, h.place, Nat.mod_eq_of_lt (by omega)]

/-- **A piece is handed out**: as much as there is, or as there is room for. -/
theorem read_offers {userd : UserBuffer} {body : List UInt8} {read : Nat}
    (h : userd.Offers body read) {call : ReadCall} (hcall : call.Proper) :
    ∃ n data userd', userBufferCurlReadFunction call.data call.size call.nmemb userd =
        .ok (n, data, userd') ∧
      n.toNat = min (body.length - read) call.capacity ∧
      data.take n.toNat = holding ((body.drop read).take call.capacity) ∧
      userd'.Offers body (read + n.toNat) := by
  have hlen : (call.size * call.nmemb).toNat = call.capacity := by
    rw [UInt64.toNat_mul]
    exact Nat.mod_eq_of_lt hcall.product
  have hleft : (userd.size - userd.place).toNat = body.length - read := by
    rw [UInt64.toNat_sub_of_le _ _ (by rw [UInt64.le_iff_toNat_le, h.size, h.place]; exact h.le),
      h.size, h.place]
  have hroom := hcall.data
  have hle := h.le
  have hlast : body.length - read ≤ call.capacity →
      (body.drop read).take (body.length - read) = (body.drop read).take call.capacity := by
    intro hshort
    rw [List.take_of_length_le (Nat.le_of_eq List.length_drop),
      List.take_of_length_le (by rw [List.length_drop]; exact hshort)]
  unfold userBufferCurlReadFunction
  dsimp only
  by_cases hzero : userd.size - userd.place = 0
  · have hdone : body.length - read = 0 := by rw [← hleft, hzero]; rfl
    rw [if_pos hzero]
    refine ⟨0, call.data, userd, rfl, ?_, ?_, h⟩
    · rw [hdone, Nat.zero_min]
      rfl
    · have hnil : body.drop read = [] := List.drop_of_length_le (by omega)
      rw [hnil, List.take_nil]
      rfl
  · rw [if_neg hzero]
    by_cases hshort : userd.size - userd.place ≤ call.size * call.nmemb
    · have hle' : body.length - read ≤ call.capacity := by
        rw [UInt64.le_iff_toNat_le, hleft, hlen] at hshort
        exact hshort
      obtain ⟨data, userd', hcopy, hpiece, hoffers⟩ := copyOut_offers h call.data
        (userd.size - userd.place) (by omega) (by omega)
      rw [if_pos hshort]
      refine ⟨_, data, userd', hcopy, ?_, ?_, hoffers⟩
      · rw [hleft, Nat.min_eq_left hle']
      · rw [hpiece, hleft, hlast hle']
    · have hlt : call.capacity < body.length - read := by
        rw [UInt64.le_iff_toNat_le, hleft, hlen] at hshort
        omega
      obtain ⟨data, userd', hcopy, hpiece, hoffers⟩ := copyOut_offers h call.data
        (call.size * call.nmemb) (by omega) (by omega)
      rw [if_neg hshort]
      refine ⟨_, data, userd', hcopy, ?_, ?_, hoffers⟩
      · rw [hlen, Nat.min_eq_right (Nat.le_of_lt hlt)]
      · rw [hpiece, hlen]

/-- The capacities of the calls together. -/
def totalCapacity (calls : List ReadCall) : Nat := (calls.map ReadCall.capacity).sum

/-- What the calls return and hand out, where so many bytes have been read. -/
structure Pieces (body : List UInt8) (read : Nat) (calls : List ReadCall)
    (shown : List (UInt64 × Block UInt8)) : Prop where
  /-- each call returns at most its capacity, and as many bytes as it says -/
  capacity : List.Forall₂
    (fun call piece => piece.1.toNat ≤ call.capacity ∧ piece.2.length = piece.1.toNat) calls shown
  /-- the pieces are what is next in the body -/
  text : (shown.map Prod.snd).flatten = holding ((body.drop read).take (totalCapacity calls))
  /-- once there was room for all of it, nothing more is returned -/
  exhausted : ∀ i, body.length - read ≤ totalCapacity (calls.take i) →
    ∀ piece ∈ shown.drop i, piece.1 = 0

/-- A call more, in front of the others. -/
theorem Pieces.cons {body : List UInt8} {read : Nat} {call : ReadCall} {calls : List ReadCall}
    {n : UInt64} {piece : Block UInt8} {shown : List (UInt64 × Block UInt8)}
    (hle : read ≤ body.length) (hn : n.toNat = min (body.length - read) call.capacity)
    (hpiece : piece = holding ((body.drop read).take call.capacity))
    (h : Pieces body (read + n.toNat) calls shown) :
    Pieces body read (call :: calls) ((n, piece) :: shown) := by
  refine ⟨List.Forall₂.cons ⟨?_, ?_⟩ h.capacity, ?_, ?_⟩
  · rw [hn]
    exact Nat.min_le_right _ _
  · change piece.length = n.toNat
    rw [hpiece, length_holding, List.length_take, List.length_drop, hn]
    exact Nat.min_comm _ _
  · have hrest : (body.drop (read + n.toNat)).take (totalCapacity calls) =
        ((body.drop read).drop call.capacity).take (totalCapacity calls) := by
      rw [List.drop_drop]
      by_cases hlt : call.capacity ≤ body.length - read
      · rw [hn, Nat.min_eq_right hlt]
      · rw [List.drop_of_length_le (by omega), List.drop_of_length_le (by omega)]
    have htotal : totalCapacity (call :: calls) = call.capacity + totalCapacity calls := rfl
    change piece ++ (shown.map Prod.snd).flatten = _
    rw [h.text, hpiece, ← holding_append, hrest, htotal, List.take_add]
  · intro i hi p hmem
    cases i with
    | zero =>
        have hdone : body.length - read = 0 := Nat.le_zero.1 hi
        rcases List.mem_cons.1 hmem with hp | hp
        · rw [hp]
          exact UInt64.toNat_inj.1 (by rw [hn, hdone, Nat.zero_min]; rfl)
        · exact h.exhausted 0 (by omega) p hp
    | succ i =>
        refine h.exhausted i ?_ p hmem
        have htotal : totalCapacity ((call :: calls).take (i + 1)) =
            call.capacity + totalCapacity (calls.take i) := rfl
        omega

/-- From a buffer of which a part has been read, the calls hand out what follows. -/
theorem reads_offers {calls : List ReadCall} {userd : UserBuffer} {body : List UInt8} {read : Nat}
    (h : userd.Offers body read) (hproper : ∀ call ∈ calls, call.Proper) :
    ∃ shown userd', Machine.Shows readStep readReturns calls userd shown userd' ∧
      Pieces body read calls shown := by
  induction calls generalizing userd read with
  | nil =>
      refine ⟨[], userd, Machine.Shows.nil _ _ _, List.Forall₂.nil, ?_, ?_⟩
      · rw [show totalCapacity [] = 0 from rfl, List.take_zero]
        rfl
      · intro i _ piece hpiece
        rw [List.drop_nil] at hpiece
        exact absurd hpiece (by simp)
  | cons call calls ih =>
      obtain ⟨n, data, userd₁, hread, hn, hpiece, hoffers⟩ :=
        read_offers h (hproper call List.mem_cons_self)
      obtain ⟨shown, userd', hshows, hpieces⟩ := ih hoffers
        (fun c hc => hproper c (List.mem_cons_of_mem _ hc))
      have hstep : readStep call userd = .ok userd₁ := by
        rw [readStep, hread]
        rfl
      have hfirst := Machine.Shows.single readStep readReturns hstep
      rw [readReturns, hread] at hfirst
      exact ⟨_, userd', hfirst.append hshows, hpieces.cons h.le hn hpiece⟩

/-! ## Both ways -/

/-- **A transfer buffer is faithful.** A buffer made empty holds the chunks that were
written to it, and a buffer made from a body hands the body out. -/
theorem userBuffer_faithful :
    (∀ calls : List WriteCall, Writable calls →
      ∃ userd returned userd',
        userBufferCreate false none true true = .ok (some userd) ∧
        Machine.Shows writeStep writeReturns calls userd returned userd' ∧
        returned.map UInt64.toNat = calls.map (·.data.length) ∧
        (userBufferGetSize userd').toNat = (calls.flatMap WriteCall.data).length ∧
        (userBufferGetText userd').getD [] = holding (calls.flatMap WriteCall.data)) ∧
    (∀ (body : List UInt8) (dataSize : UInt64), body.length = dataSize.toNat →
      ∀ calls : List ReadCall, (∀ call ∈ calls, call.Proper) →
        ∃ userd shown userd',
          userBufferCreateSized false (some (holding body)) dataSize true true =
            .ok (some userd) ∧
          Machine.Shows readStep readReturns calls userd shown userd' ∧
          List.Forall₂ (fun call piece =>
            piece.1.toNat ≤ call.capacity ∧ piece.2.length = piece.1.toNat) calls shown ∧
          (shown.map Prod.snd).flatten =
            holding (body.take (min (totalCapacity calls) body.length)) ∧
          ∀ i, body.length ≤ totalCapacity (calls.take i) →
            ∀ piece ∈ shown.drop i, piece.1 = 0) := by
  constructor
  · intro calls hcalls
    have hcreate : userBufferCreate false none true true =
        .ok (some { size := 0, place := 0, buf := none, malloced := true }) := rfl
    obtain ⟨returned, userd', hshows, hreturned, hreceived⟩ := writes_received
      (received_create hcreate) hcalls.proper hcalls.alloc
      (by rw [List.length_nil, Nat.zero_add]; exact hcalls.total)
    rw [List.nil_append] at hreceived
    exact ⟨_, returned, userd', hcreate, hshows, hreturned, hreceived.size, hreceived.text⟩
  · intro body dataSize hsize calls hcalls
    obtain ⟨userd, hcreate, hoffers⟩ := create_offers body hsize
    obtain ⟨shown, userd', hshows, hpieces⟩ := reads_offers hoffers hcalls
    refine ⟨userd, shown, userd', hcreate, hshows, hpieces.capacity, ?_, hpieces.exhausted⟩
    rw [hpieces.text, List.drop_zero]
    by_cases hle : totalCapacity calls ≤ body.length
    · rw [Nat.min_eq_left hle]
    · rw [Nat.min_eq_right (by omega), List.take_of_length_le (by omega), List.take_length]

theorem userBuffer_faithful_chunks :
    (∃ userd returned userd',
      userBufferCreate false none true true = .ok (some userd) ∧
      Machine.Shows writeStep writeReturns
        [{ size := 1, nmemb := 2, data := [104, 105], alloc := true },
          { size := 1, nmemb := 0, data := [], alloc := false },
          { size := 1, nmemb := 1, data := [33], alloc := true }] userd returned userd' ∧
      returned.map UInt64.toNat = [2, 0, 1] ∧
      (userBufferGetSize userd').toNat = 3 ∧
      (userBufferGetText userd').getD [] = holding [104, 105, 33]) ∧
    ∃ userd shown userd',
      userBufferCreateSized false (some (holding [104, 105, 33])) 3 true true =
        .ok (some userd) ∧
      Machine.Shows readStep readReturns
        [{ size := 1, nmemb := 2, data := fresh 2 }, { size := 2, nmemb := 2, data := fresh 4 },
          { size := 1, nmemb := 1, data := fresh 1 }] userd shown userd' ∧
      (shown.map Prod.snd).flatten = holding [104, 105, 33] ∧
      ∀ piece ∈ shown.drop 2, piece.1 = 0 := by
  constructor
  · apply userBuffer_faithful.1
    refine ⟨?_, ?_, by decide⟩
    · intro call hcall
      simp only [List.mem_cons, List.not_mem_nil, or_false] at hcall
      rcases hcall with rfl | rfl | rfl <;> exact ⟨by decide, rfl⟩
    · decide
  · obtain ⟨userd, shown, userd', hcreate, hshows, _, htext, hexhausted⟩ :=
      userBuffer_faithful.2 [104, 105, 33] 3 rfl
        [{ size := 1, nmemb := 2, data := fresh 2 }, { size := 2, nmemb := 2, data := fresh 4 },
          { size := 1, nmemb := 1, data := fresh 1 }] (by
        intro call hcall
        simp only [List.mem_cons, List.not_mem_nil, or_false] at hcall
        rcases hcall with rfl | rfl | rfl <;> exact ⟨by decide, by decide⟩)
    exact ⟨userd, shown, userd', hcreate, hshows, htext, hexhausted 2 (by decide)⟩

/-! ## The buffer of the backend -/

/-- What the loop around `curl_multi_perform` leaves in the buffer. -/
theorem multiPerform_buffer {backend backend' : BurrowBackend} {performs : List Perform}
    {retval : Int} {runningHandles : Nat}
    (h : multiPerform backend performs = some (retval, runningHandles, backend')) :
    backend'.buffer = backend.buffer.map (· ++ delivered performs) := by
  induction performs generalizing backend with
  | nil => exact absurd h (by simp [multiPerform])
  | cons answer rest ih =>
      rw [multiPerform] at h
      rw [delivered]
      split at h
      · next hagain =>
          rw [ih h, receive, Option.map_map, if_pos hagain]
          apply congrArg (Option.map · backend.buffer)
          funext bytes
          exact List.append_assoc _ _ _
      · next hdone =>
          cases h
          rw [if_neg hdone]
          rfl

/-- **The backend's buffer is a transfer buffer.** In whatever chunks libcurl delivers the
response, the buffer holds the bytes that the backend finds in it. -/
theorem multiPerform_refined {backend backend' : BurrowBackend} {performs : List Perform}
    {retval : Int} {runningHandles : Nat}
    (h : multiPerform backend performs = some (retval, runningHandles, backend'))
    {bytes : List UInt8} (hbuffer : backend.buffer = some bytes) {userd : UserBuffer}
    (hreceived : userd.Received bytes) :
    backend'.buffer = some (bytes ++ delivered performs) ∧
      ∀ calls : List WriteCall, calls.flatMap WriteCall.data = delivered performs →
        (∀ call ∈ calls, call.Proper) → (∀ call ∈ calls, call.data ≠ [] → call.alloc = true) →
        (bytes ++ delivered performs).length < 2 ^ 64 →
        ∃ returned userd', Machine.Shows writeStep writeReturns calls userd returned userd' ∧
          userd'.Received (bytes ++ delivered performs) := by
  constructor
  · rw [multiPerform_buffer h, hbuffer]
    rfl
  · intro calls hdata hproper halloc htotal
    rw [← hdata] at htotal ⊢
    obtain ⟨returned, userd', hshows, _, hreceived'⟩ := writes_received hreceived hproper halloc
      (by rw [List.length_append] at htotal; exact htotal)
    exact ⟨returned, userd', hshows, hreceived'⟩

end Burrow.Http
