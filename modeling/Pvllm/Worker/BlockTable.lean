import Pvllm.Core.KVCacheManager

/-!
The worker's block tables, one set for each KV cache group.

A row of the source has room for every block of a request of the greatest length,
and `num_blocks` says how many of its entries are valid: the entries past those are
read by nothing, so a row is the list of its valid entries here. The checks made
where the debug invariants are on are part of the model.
-/

namespace Pvllm

structure BlockTables where
  blockSizes : List ℕ
  maxNumReqs : ℕ
  maxModelLen : ℕ
  enableCaching : Bool
  windowedGroups : List Bool
  debugInvariants : Bool
  rows : ℕ → ℕ → List BlockId

namespace BlockTables

def init (blockSizes : List ℕ) (maxNumReqs maxModelLen : ℕ) (enableCaching : Bool)
    (windowedGroups : List Bool) (debugInvariants : Bool) : BlockTables where
  blockSizes := blockSizes
  maxNumReqs := maxNumReqs
  maxModelLen := maxModelLen
  enableCaching := enableCaching
  windowedGroups := windowedGroups
  debugInvariants := debugInvariants
  rows := fun _ _ => []

variable (tables : BlockTables)

def numKVCacheGroups : ℕ := tables.blockSizes.length

def blockSize (groupId : ℕ) : ℕ := tables.blockSizes.getD groupId 0

def maxBlocksPerReq (groupId : ℕ) : ℕ :=
  (tables.maxModelLen + tables.blockSize groupId - 1) / tables.blockSize groupId

def setRow (groupId reqIdx : ℕ) (row : List BlockId) : BlockTables :=
  { tables with
    rows := Function.update tables.rows groupId
      (Function.update (tables.rows groupId) reqIdx row) }

/-- Install a request's complete block table, from the given group on. -/
def setBlockIds (reqIdx groupId : ℕ) (tables : BlockTables) :
    List (List BlockId) → Except PyError BlockTables
  | [] => .ok tables
  | ids :: rest =>
    if tables.maxBlocksPerReq groupId < ids.length then
      .error (.valueError
        (s!"request at slot {reqIdx} was given {ids.length} blocks in group {groupId}, but "
          ++ s!"max_model_len allows only {tables.maxBlocksPerReq groupId}"))
    else
      setBlockIds reqIdx (groupId + 1) (tables.setRow groupId reqIdx ids) rest

/-- Extend a request's block table with newly allocated blocks, from the given
group on. -/
def appendBlockIds (reqIdx groupId : ℕ) (tables : BlockTables) :
    List (List BlockId) → Except PyError BlockTables
  | [] => .ok tables
  | ids :: rest =>
    let row := tables.rows groupId reqIdx ++ ids
    if ids = [] then
      appendBlockIds reqIdx (groupId + 1) tables rest
    else if tables.maxBlocksPerReq groupId < row.length then
      .error (.valueError
        (s!"request at slot {reqIdx} would hold {row.length} blocks in group {groupId}, "
          ++ s!"exceeding the {tables.maxBlocksPerReq groupId} that max_model_len allows"))
    else
      appendBlockIds reqIdx (groupId + 1) (tables.setRow groupId reqIdx row) rest

def clear (reqIdx : ℕ) : BlockTables :=
  { tables with rows := fun groupId => Function.update (tables.rows groupId) reqIdx [] }

/-! ### Where the KV of a step is written -/

/-- The slots of one request's scheduled positions. -/
def slotsOf (groupId reqIdx : ℕ) (positions : List ℕ) : Except PyError (List ℕ) :=
  let blockSize := tables.blockSize groupId
  let row := tables.rows groupId reqIdx
  match (positions.map (· / blockSize)).max? with
  | none => .ok []
  | some highest =>
    if row.length ≤ highest then
      .error (.assertionError
        (s!"slot mapping runs past the block table: request at slot {reqIdx} writes position "
          ++ s!"{positions.max?.getD 0}, which needs block index {highest}, but it owns only "
          ++ s!"{row.length} blocks. The scheduler scheduled a token the KV manager did not "
          ++ "allocate for (R8.3)."))
    else
      .ok (positions.map fun position =>
        row.getD (position / blockSize) 0 * blockSize + position % blockSize)

/-- The first key met again that clashes with its last owner: the key, the owner
it had and the new one. -/
def firstClash (clashes : ℕ → ℕ → Bool) (owners : Dict ℕ ℕ) :
    List (ℕ × ℕ) → Option (ℕ × ℕ × ℕ)
  | [] => none
  | (key, owner) :: rest =>
    match owners.find key with
    | none => firstClash clashes (owners.store key owner) rest
    | some previous =>
      if clashes previous owner then some (key, previous, owner)
      else firstClash clashes (owners.store key owner) rest

def groupSlides (groupId : ℕ) : Bool := tables.windowedGroups.getD groupId false

/-- No physical block may appear in two live requests' tables. -/
def validateBlockOwnership (groupId : ℕ) : Except PyError Unit :=
  let held := (List.range tables.maxNumReqs).flatMap fun reqIdx =>
    (tables.rows groupId reqIdx).map fun block => (block, reqIdx)
  match firstClash (fun previous reqIdx => previous != reqIdx) .empty held with
  | none => .ok ()
  | some (block, previous, reqIdx) => .error (.assertionError
      (s!"block {block} is held by two live requests, at slots {previous} and {reqIdx}. The "
        ++ "block pool allocated it twice; on real hardware each would overwrite the other's KV "
        ++ "cache (R8.3)."))

/-- What is checked of a slot mapping, given as the slots written for each request
slot of the batch. -/
def validateSlotMapping (groupId : ℕ) (slotMapping : List (ℕ × List ℕ)) : Except PyError Unit := do
  let written := slotMapping.flatMap fun (reqIdx, slots) => slots.map fun slot => (slot, reqIdx)
  match firstClash (fun _ _ => true) .empty written with
  | some (slot, previous, reqIdx) => .error (.assertionError
      (s!"slot {slot} written twice in one step, by requests at slots {previous} and {reqIdx}. "
        ++ "The block pool handed the same block to both (R21.1)."))
  | none =>
    if !tables.enableCaching && !tables.groupSlides groupId then
      tables.validateBlockOwnership groupId
    else
      .ok ()

/-- Where each scheduled token's KV is written, for the request slots of the batch
with their positions. -/
def computeSlotMapping (groupId : ℕ) (batch : List (ℕ × List ℕ)) :
    Except PyError (List (ℕ × List ℕ)) := do
  let slotMapping ← batch.mapM fun (reqIdx, positions) => do
    let slots ← tables.slotsOf groupId reqIdx positions
    return (reqIdx, slots)
  if tables.debugInvariants then tables.validateSlotMapping groupId slotMapping
  return slotMapping

end BlockTables

end Pvllm
