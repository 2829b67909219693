import VeStorage.Tos.LocalPath

namespace VeStorage.Tos.Sync
open Lib

structure SyncArgs where
  source : Text
  destination : Text
  includeParent : Bool
  includePattern : Option Text
  excludePattern : Option Text
  disableDirObject : Bool

structure SyncContext where
  source : ParsedTosUri
  rawDestination : ParsedTosUri
  parentPrefix : Option Text

-- A visit of `LocalUploadWalker`; the root has no names.
structure LocalNode where
  rel : RelPath
  isDir : Bool
  size : Nat

-- The two ends as the plans read them: what `collect_local_files`, `LocalUploadWalker` and the
-- TOS listings return.
structure SyncState where
  cwd : List Text
  sourceFiles : List RelPath
  sourceNodes : List LocalNode
  sourceEntries : List ObjectEntry
  destinationFiles : Option (List RelPath)
  destinationEntries : List ObjectEntry

structure SyncCopy where
  source : Text
  destination : Text

structure DeleteExtra where
  relativeKey : Text
  source : Text
  etag : Option Text

structure SyncPlan where
  copies : List SyncCopy
  deletes : List DeleteExtra

def parseEnd (uri : Text) : Except CliError ParsedTosUri :=
  if isTosUri uri then parseTosUri uri true else .ok ⟨[], none⟩

def syncContext (args : SyncArgs) : Except CliError SyncContext := do
  let source ← parseEnd args.source
  let destination ← parseEnd args.destination
  let parent ← recursiveSourceParentPrefix args.source args.includeParent
  .ok ⟨normalizeRecursiveTosTarget source, destination, parent⟩

section Common

variable (args : SyncArgs) (ctx : SyncContext)

def allows (key : Text) : Bool := patternAllows key args.includePattern args.excludePattern

def SyncContext.destinationPrefix (ctx : SyncContext) : Text :=
  (normalizeRecursiveTosTarget ctx.rawDestination).key.getD []

def SyncContext.sourcePrefix (ctx : SyncContext) : Text := ctx.source.key.getD []

def localRelativeKey (rel : RelPath) : Text :=
  prependParentPrefix (slashed rel.text) ctx.parentPrefix

def tosRelativeKey (key : Text) : Text :=
  prependParentPrefix (stripTosPrefix key ctx.sourcePrefix) ctx.parentPrefix

end Common

section LocalDestination

variable (args : SyncArgs) (ctx : SyncContext) (st : SyncState)

def buildLocalSourceMappings : List (Text × SyncCopy) :=
  st.sourceFiles.map fun rel =>
    (localRelativeKey ctx rel, ⟨pathJoin args.source rel.text, pathJoin args.destination rel.text⟩)

def buildTosSourceMappings : List (Text × SyncCopy) :=
  st.sourceEntries.map fun entry =>
    (tosRelativeKey ctx entry.key, ⟨formatTosUri ctx.source.bucket entry.key,
      if isTosUri args.destination then
        formatTosUri ctx.rawDestination.bucket
          (joinTosKey (ctx.rawDestination.key.getD []) (tosRelativeKey ctx entry.key))
      else pathJoin args.destination (tosRelativeKey ctx entry.key)⟩)

def filteredCopies (mappings : List (Text × SyncCopy)) : List SyncCopy :=
  (mappings.filter fun item => allows args item.1).map Prod.snd

def desiredContains (desired : List Text) (rel : RelPath) : Bool :=
  desired.any fun path => decide (pathComponents path = pathComponents rel.text)

def buildLocalExtrasPlanFromDesired (desired : List Text) : List DeleteExtra :=
  ((st.destinationFiles.getD []).filter fun rel =>
    allows args (slashed rel.text) && !desiredContains desired rel).map fun rel =>
      ⟨slashed rel.text, pathJoin args.destination rel.text, none⟩

def buildLocalExtrasPlan : List DeleteExtra :=
  buildLocalExtrasPlanFromDesired args st (st.sourceFiles.map (localRelativeKey ctx))

def buildLocalExtrasPlanForTosSource : List DeleteExtra :=
  buildLocalExtrasPlanFromDesired args st
    (st.sourceEntries.map fun entry => tosRelativeKey ctx entry.key)

end LocalDestination

section TosDestination

variable (args : SyncArgs) (ctx : SyncContext) (st : SyncState)

def deleteExtraEntry (entry : ObjectEntry) : DeleteExtra :=
  ⟨stripTosPrefix entry.key ctx.destinationPrefix,
    formatTosUri ctx.rawDestination.bucket entry.key, entry.etag⟩

def buildTosExtrasPlan (desired : List Text) : List DeleteExtra :=
  (st.destinationEntries.filter fun entry =>
    allows args (stripTosPrefix entry.key ctx.destinationPrefix) &&
      decide (entry.key ∉ desired)).map (deleteExtraEntry ctx)

def buildTosExtrasPlanForTosSource : List DeleteExtra :=
  buildTosExtrasPlan args ctx st
    (st.sourceEntries.map fun entry =>
      joinTosKey ctx.destinationPrefix (tosRelativeKey ctx entry.key))

end TosDestination

section LocalUpload

variable (args : SyncArgs) (ctx : SyncContext)

structure UploadItem where
  source : Text
  key : Text
  rel : RelPath
  isDir : Bool
  size : Nat

def withSlash (key : Text) : Text := if ['/'] <:+ key then key else key ++ ['/']

def planUploadItem (rel : RelPath) (isDir : Bool) (size : Nat) : Option UploadItem :=
  let key := joinTosKey (ctx.rawDestination.key.getD []) (localRelativeKey ctx rel)
  if key = [] then none
  else some ⟨if rel.names = [] then args.source else pathJoin args.source rel.text,
    if isDir then withSlash key else key, rel, isDir, if isDir then 0 else size⟩

def localUploadItemMatches (item : UploadItem) : Bool :=
  decide (item.rel.names = []) || allows args (slashed item.rel.text)

-- The source root first, the direct parent last; nothing above the root.
def parents (rel : RelPath) : List RelPath :=
  (List.range rel.names.length).map fun n =>
    ⟨rel.names.take n, fun _ h => rel.names_ok _ (List.mem_of_mem_take h)⟩

def requiredLocalUploadAncestors (item : UploadItem) : List UploadItem :=
  (parents item.rel).filterMap fun rel => planUploadItem args ctx rel true 0

def isDirKey (key : Text) : Bool := decide (['/'] <:+ key)

-- `retain` with `emitted.insert`: a directory action is kept the first time its key occurs.
def retainNew : List UploadItem → List Text → List UploadItem × List Text
  | [], emitted => ([], emitted)
  | action :: actions, emitted =>
      if isDirKey action.key then
        if action.key ∈ emitted then retainNew actions emitted
        else
          let rest := retainNew actions (action.key :: emitted)
          (action :: rest.1, rest.2)
      else
        let rest := retainNew actions emitted
        (action :: rest.1, rest.2)

def selectLocalUploadActions (item : UploadItem) (emitted : List Text) :
    List UploadItem × List Text :=
  if args.disableDirObject && isDirKey item.key then ([], emitted)
  else
    let ancestors := if args.disableDirObject then [] else requiredLocalUploadAncestors args ctx item
    retainNew (ancestors ++ [item]) emitted

def protectTosKeyAncestors (desired : List Text) (key destinationPrefix : Text) : List Text :=
  desired ++ key.inits.filter fun p => isDirKey p && decide (destinationPrefix <+: p)

structure UploadSync where
  planned : List UploadItem
  desired : List Text
  emitted : List Text

def uploadSyncStep (acc : UploadSync) (node : LocalNode) : UploadSync :=
  match planUploadItem args ctx node.rel node.isDir node.size with
  | none => acc
  | some item =>
      if localUploadItemMatches args item then
        let actions := selectLocalUploadActions args ctx item acc.emitted
        ⟨acc.planned ++ actions.1,
          protectTosKeyAncestors (acc.desired ++ [item.key]) item.key ctx.destinationPrefix,
          actions.2⟩
      else acc

def buildLocalUploadSyncPlan (nodes : List LocalNode) : UploadSync :=
  nodes.foldl (uploadSyncStep args ctx) ⟨[], [], []⟩

def stripParent (relative : Text) (parentPrefix : Option Text) : Text :=
  match parentPrefix with
  | none => relative
  | some parent =>
      if relative = parent then [] else (stripPrefix (parent ++ ['/']) relative).getD relative

def syncRemoteKeyMatches (key : Text) : Bool :=
  allows args
    (stripParent (trimEnd '/' (stripTosPrefix key ctx.destinationPrefix)) ctx.parentPrefix)

def retainedDesired (desired : List Text) (inventory : List ObjectEntry) : List Text :=
  inventory.foldl (fun acc entry =>
    if syncRemoteKeyMatches args ctx entry.key then acc
    else protectTosKeyAncestors acc entry.key ctx.destinationPrefix) desired

def planLocalUploadSyncExtras (desired : List Text) (inventory : List ObjectEntry) :
    List DeleteExtra :=
  let desired := retainedDesired args ctx desired inventory
  (inventory.filter fun entry =>
    decide (entry.key ∉ desired) && syncRemoteKeyMatches args ctx entry.key).map
      (deleteExtraEntry ctx)

def uploadCopies (nodes : List LocalNode) : List SyncCopy :=
  (buildLocalUploadSyncPlan args ctx nodes).planned.map fun item =>
    ⟨item.source, formatTosUri ctx.rawDestination.bucket item.key⟩

end LocalUpload

def syncPlan (args : SyncArgs) (ctx : SyncContext) (st : SyncState) : SyncPlan :=
  match isTosUri args.source, isTosUri args.destination with
  | false, false =>
      ⟨filteredCopies args (buildLocalSourceMappings args ctx st), buildLocalExtrasPlan args ctx st⟩
  | true, false =>
      ⟨filteredCopies args (buildTosSourceMappings args ctx st),
        buildLocalExtrasPlanForTosSource args ctx st⟩
  | true, true =>
      ⟨filteredCopies args (buildTosSourceMappings args ctx st),
        buildTosExtrasPlanForTosSource args ctx st⟩
  | false, true =>
      ⟨uploadCopies args ctx st.sourceNodes,
        planLocalUploadSyncExtras args ctx
          (buildLocalUploadSyncPlan args ctx st.sourceNodes).desired st.destinationEntries⟩

end VeStorage.Tos.Sync
