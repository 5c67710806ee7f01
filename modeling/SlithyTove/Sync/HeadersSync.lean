import SlithyTove.Chain.ChainWork
import SlithyTove.Primitives.Transaction

/-!
# Headers sync with a peer that is not trusted

`HeadersSyncState` (`headerssync.cpp`) downloads a peer's headers twice.  The first time (`PRESYNC`)
it keeps one bit for every `commitment_period`th header and adds up the work.  Once there is enough
work it downloads the headers again (`REDOWNLOAD`), compares the bits, and keeps the headers in a
buffer; headers are returned once `redownload_buffer_size` headers follow them, or once the work of
the redownloaded headers is enough.

Work is a number of 256 bits.  The heights of the first phase go through an `int` of 32 bits
(`narrowInt`), those of the second do not.  The hash of a header and the secret bit of a hash are
parameters.
-/

namespace SlithyTove

variable {Hash : Type}

/-! ## Data -/

/-- `CompressedHeader`: a header without the hash of its parent. -/
structure CompressedHeader (Hash : Type) where
  nVersion : Int32
  hashMerkleRoot : Hash
  nTime : UInt32
  nBits : UInt32
  nNonce : UInt32

/-- The constructor from a header. -/
def CompressedHeader.ofHeader (header : CBlockHeader Hash) : CompressedHeader Hash where
  nVersion := header.nVersion
  hashMerkleRoot := header.hashMerkleRoot
  nTime := header.nTime
  nBits := header.nBits
  nNonce := header.nNonce

/-- `GetFullHeader`. -/
def CompressedHeader.getFullHeader (compressed : CompressedHeader Hash) (hash_prev_block : Hash) :
    CBlockHeader Hash where
  nVersion := compressed.nVersion
  hashPrevBlock := hash_prev_block
  hashMerkleRoot := compressed.hashMerkleRoot
  nTime := compressed.nTime
  nBits := compressed.nBits
  nNonce := compressed.nNonce

/-- A number as an `int`. -/
def narrowInt (x : ℤ) : ℤ := Int.bmod x (2 ^ 32)

/-- `HeadersSyncState::State`. -/
inductive DownloadState
  | PRESYNC
  | REDOWNLOAD
  | FINAL
  deriving DecidableEq, Repr

/-- What is fixed when a `HeadersSyncState` is constructed. -/
structure HeadersSyncConfig (Hash : Type) where
  blockHash : CBlockHeader Hash → Hash
  /-- `m_hasher(hash) & 1`. -/
  hasher : Hash → Bool
  consensus_params : Params
  commitment_period : ℕ
  commitment_period_pos : 1 ≤ commitment_period
  redownload_buffer_size : ℕ
  redownload_buffer_size_pos : 1 ≤ redownload_buffer_size
  commit_offset : ℕ
  commit_offset_lt : commit_offset < commitment_period
  /-- The header, height and work of `m_chain_start`. -/
  chain_start : CBlockHeader Hash
  nHeight : ℤ
  nHeight_nonneg : 0 ≤ nHeight
  nHeight_lt : nHeight < 2 ^ 31
  nChainWork : ℕ
  minimum_required_work : ℕ
  max_commitments : ℕ

/-- The fields of `HeadersSyncState` that change. -/
structure HeadersSyncState (Hash : Type) where
  m_current_chain_work : ℕ
  m_header_commitments : List Bool
  m_last_header_received : CBlockHeader Hash
  m_current_height : ℤ
  m_redownloaded_headers : List (CompressedHeader Hash)
  m_redownload_buffer_last_height : ℤ
  m_redownload_buffer_last_hash : Hash
  m_redownload_buffer_first_prev_hash : Hash
  m_redownload_chain_work : ℕ
  m_process_all_remaining_headers : Bool
  m_download_state : DownloadState

/-- `ProcessingResult`. -/
structure ProcessingResult (Hash : Type) where
  pow_validated_headers : List (CBlockHeader Hash) := []
  success : Bool := false
  request_more : Bool := false

namespace HeadersSyncConfig

variable [Zero Hash] (c : HeadersSyncConfig Hash)

/-- The constructor of `HeadersSyncState`. -/
def start : HeadersSyncState Hash where
  m_current_chain_work := c.nChainWork
  m_header_commitments := []
  m_last_header_received := c.chain_start
  m_current_height := c.nHeight
  m_redownloaded_headers := []
  m_redownload_buffer_last_height := 0
  m_redownload_buffer_last_hash := 0
  m_redownload_buffer_first_prev_hash := 0
  m_redownload_chain_work := 0
  m_process_all_remaining_headers := false
  m_download_state := .PRESYNC

/-- `Finalize`. -/
def finalize (s : HeadersSyncState Hash) : HeadersSyncState Hash :=
  { s with
    m_header_commitments := []
    m_last_header_received := ⟨0, 0, 0, 0, 0, 0⟩
    m_redownloaded_headers := []
    m_redownload_buffer_last_hash := 0
    m_redownload_buffer_first_prev_hash := 0
    m_process_all_remaining_headers := false
    m_current_height := 0
    m_download_state := .FINAL }

end HeadersSyncConfig

/-! ## The checks of one header -/

namespace HeadersSyncConfig

variable (c : HeadersSyncConfig Hash)

/-- `next_height % commitment_period == m_commit_offset`; the height is converted to `size_t`. -/
def isCommitmentHeight (next_height : ℤ) : Bool :=
  (next_height % 2 ^ 64).toNat % c.commitment_period = c.commit_offset

/-- `PermittedDifficultyTransition`.  A division by zero, which the parameters of no network cause,
counts as not permitted. -/
def permitted (height : ℤ) (old_nbits new_nbits : UInt32) : Bool :=
  match permittedDifficultyTransition c.consensus_params height old_nbits new_nbits with
  | .ok result => result
  | .error _ => false

/-- `work += GetBlockProof(header)`. -/
def addWork (work : ℕ) (header : CBlockHeader Hash) : ℕ :=
  (work + getBitsProof header.nBits) % 2 ^ 256

variable (s : HeadersSyncState Hash)

/-- The end of `ValidateAndProcessSingleHeader`. -/
def advance (current : CBlockHeader Hash) (next_height : ℤ) : HeadersSyncState Hash :=
  { s with
    m_current_chain_work := addWork s.m_current_chain_work current
    m_last_header_received := current
    m_current_height := next_height }

/-- `ValidateAndProcessSingleHeader`, in `PRESYNC`. -/
def validateAndProcessSingleHeader (current : CBlockHeader Hash) : Bool × HeadersSyncState Hash :=
  let next_height := narrowInt (s.m_current_height + 1)
  if c.permitted next_height s.m_last_header_received.nBits current.nBits = false then (false, s)
  else if c.isCommitmentHeight next_height then
    let s := { s with
      m_header_commitments := s.m_header_commitments ++ [c.hasher (c.blockHash current)] }
    if s.m_header_commitments.length > c.max_commitments then (false, s)
    else (true, advance s current next_height)
  else (true, advance s current next_height)

/-- A loop over the headers of a message that ends at the first header that fails. -/
def loopHeaders (step : HeadersSyncState Hash → CBlockHeader Hash → Bool × HeadersSyncState Hash) :
    List (CBlockHeader Hash) → HeadersSyncState Hash → Bool × HeadersSyncState Hash
  | [], s => (true, s)
  | header :: headers, s =>
    match step s header with
    | (true, s) => loopHeaders step headers s
    | (false, s) => (false, s)

/-- The switch to `REDOWNLOAD`. -/
def startRedownload : HeadersSyncState Hash :=
  { s with
    m_redownloaded_headers := []
    m_redownload_buffer_last_height := c.nHeight
    m_redownload_buffer_first_prev_hash := c.blockHash c.chain_start
    m_redownload_buffer_last_hash := c.blockHash c.chain_start
    m_redownload_chain_work := c.nChainWork
    m_download_state := .REDOWNLOAD }

/-- The end of `ValidateAndStoreRedownloadedHeader`. -/
def store (header : CBlockHeader Hash) (next_height : ℤ) : HeadersSyncState Hash :=
  { s with
    m_redownloaded_headers := s.m_redownloaded_headers ++ [.ofHeader header]
    m_redownload_buffer_last_height := next_height
    m_redownload_buffer_last_hash := c.blockHash header }

/-- The work of a redownloaded header, and the flag once there is enough. -/
def trackWork (header : CBlockHeader Hash) : HeadersSyncState Hash :=
  let work := addWork s.m_redownload_chain_work header
  { s with
    m_redownload_chain_work := work
    m_process_all_remaining_headers :=
      s.m_process_all_remaining_headers || decide (work ≥ c.minimum_required_work) }

/-- The target of the header before a redownloaded one. -/
def previousBits : UInt32 :=
  (s.m_redownloaded_headers.getLast?.map CompressedHeader.nBits).getD c.chain_start.nBits

/-- `ValidateAndStoreRedownloadedHeader`, in `REDOWNLOAD`, for a header with a commitment or
without. -/
def checkCommitment (header : CBlockHeader Hash) (next_height : ℤ) : Bool × HeadersSyncState Hash :=
  if s.m_process_all_remaining_headers = false ∧ c.isCommitmentHeight next_height then
    match s.m_header_commitments with
    | [] => (false, s)
    | expected_commitment :: rest =>
      let s := { s with m_header_commitments := rest }
      if c.hasher (c.blockHash header) ≠ expected_commitment then (false, s)
      else (true, c.store s header next_height)
  else (true, c.store s header next_height)

section Redownload

variable [DecidableEq Hash]

/-- `ValidateAndStoreHeadersCommitments`, in `PRESYNC`. -/
def validateAndStoreHeadersCommitments (s : HeadersSyncState Hash)
    (headers : List (CBlockHeader Hash)) : Bool × HeadersSyncState Hash :=
  match headers with
  | [] => (true, s)
  | first :: _ =>
    if first.hashPrevBlock ≠ c.blockHash s.m_last_header_received then (false, s)
    else
      match loopHeaders c.validateAndProcessSingleHeader headers s with
      | (false, s) => (false, s)
      | (true, s) =>
        (true, if s.m_current_chain_work ≥ c.minimum_required_work then c.startRedownload s
          else s)

/-- `ValidateAndStoreRedownloadedHeader`, in `REDOWNLOAD`. -/
def validateAndStoreRedownloadedHeader (s : HeadersSyncState Hash) (header : CBlockHeader Hash) :
    Bool × HeadersSyncState Hash :=
  let next_height := s.m_redownload_buffer_last_height + 1
  if header.hashPrevBlock ≠ s.m_redownload_buffer_last_hash then (false, s)
  else if c.permitted next_height (c.previousBits s) header.nBits = false then (false, s)
  else c.checkCommitment (c.trackWork s header) header next_height

end Redownload

/-! ## A message -/

/-- The loop of `PopHeadersReadyForAcceptance`: what is returned, what stays in the buffer, and the
hash before it. -/
def popLoop (process_all : Bool) : List (CompressedHeader Hash) → (prev_hash : Hash) →
    List (CBlockHeader Hash) × List (CompressedHeader Hash) × Hash
  | [], prev_hash => ([], [], prev_hash)
  | compressed :: rest, prev_hash =>
    if rest.length + 1 > c.redownload_buffer_size ∨ process_all then
      let header := compressed.getFullHeader prev_hash
      let (ret, left, prev_hash) := popLoop process_all rest (c.blockHash header)
      (header :: ret, left, prev_hash)
    else ([], compressed :: rest, prev_hash)

/-- `PopHeadersReadyForAcceptance`, in `REDOWNLOAD`. -/
def popHeadersReadyForAcceptance : List (CBlockHeader Hash) × HeadersSyncState Hash :=
  let (ret, left, prev_hash) := c.popLoop s.m_process_all_remaining_headers
    s.m_redownloaded_headers s.m_redownload_buffer_first_prev_hash
  (ret, { s with
    m_redownloaded_headers := left
    m_redownload_buffer_first_prev_hash := prev_hash })

variable [DecidableEq Hash] [Zero Hash]

/-- `ProcessNextHeaders` up to the last line. -/
def processHeaders (received_headers : List (CBlockHeader Hash)) (full_headers_message : Bool) :
    ProcessingResult Hash × HeadersSyncState Hash :=
  match s.m_download_state with
  | .FINAL => ({}, s)
  | .PRESYNC =>
    match c.validateAndStoreHeadersCommitments s received_headers with
    | (false, s) => ({}, s)
    | (true, s) =>
      ({ success := true
         request_more := full_headers_message || s.m_download_state = .REDOWNLOAD }, s)
  | .REDOWNLOAD =>
    match loopHeaders c.validateAndStoreRedownloadedHeader received_headers s with
    | (false, s) => ({}, s)
    | (true, s) =>
      let (ret, s) := c.popHeadersReadyForAcceptance s
      ({ pow_validated_headers := ret
         success := true
         request_more :=
           if s.m_redownloaded_headers.isEmpty ∧ s.m_process_all_remaining_headers then false
           else full_headers_message }, s)

/-- `ProcessNextHeaders`.  An empty message and a call after the end change nothing. -/
def processNextHeaders (received_headers : List (CBlockHeader Hash)) (full_headers_message : Bool) :
    ProcessingResult Hash × HeadersSyncState Hash :=
  if received_headers.isEmpty ∨ s.m_download_state = .FINAL then ({}, s)
  else
    let (ret, s) := c.processHeaders s received_headers full_headers_message
    (ret, if ret.success ∧ ret.request_more then s else finalize s)

end HeadersSyncConfig

end SlithyTove
