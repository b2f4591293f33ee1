import FontCatalog.Cache.Interleaving
import FontCatalog.Catalog
import FontCatalog.Loading

/-!
# Sessions

A session is a font provider at work: it scans for fonts, hands out the programs of the fonts that
it is asked for, and keeps them in a cache. Between its calls the files may change. Programs that
were handed out are told apart by their instances, so that it can be seen whether two callers got
the same one.
-/

namespace FontCatalog

/-- A program that was loaded. Every loading of a session has a number of its own. -/
structure Instance where
  number : Nat
  program : FontProgram
deriving DecidableEq

/-- The cache of a session. -/
abbrev FontCache := Cache FontKey Instance

/-- How a program is got from the cache if it is there, and else loaded and stored. -/
inductive CachePolicy where
  /-- In one call that holds the slot of the key. -/
  | holdSlot
  /-- In a call that looks up, and after loading another one that stores. -/
  | lookThenStore
deriving DecidableEq

/-- Gets the value of a key, or keeps what the loader comes up with. -/
def CachePolicy.getOrLoad (policy : CachePolicy) (cache : FontCache) (key : FontKey)
    (attempt : Attempt Instance) : FontCache × Outcome Instance :=
  match policy with
  | holdSlot => cache.getOrLoad key attempt
  | lookThenStore => cache.lookThenStore key attempt

/-- Files, the cache and the latest catalog. -/
structure Session where
  files : FileSystem
  policy : CachePolicy
  cache : FontCache
  catalog : Catalog
  /-- The number of the next loading. -/
  nextNumber : Nat

namespace Session

/-- A session that has not begun to scan. -/
def start (files : FileSystem) (policy : CachePolicy) : Session where
  files := files
  policy := policy
  cache := .empty
  catalog := .empty
  nextNumber := 0

/-- What happens to the files, or is asked of the provider or of its cache. -/
inductive Action where
  | write (path : Path) (data : Bytes)
  | makeDirectories (path : Path)
  | remove (path : Path)
  | catalogFiles (paths : List Path)
  | scan (environment : Environment) (options : ScanOptions)
  | failToScan (reason : String)
  | getFont (record : FontRecord)
  | getFonts (records : List FontRecord) (schedule : List Nat)
  | load (record : FontRecord)
  | get (key : FontKey)
  | put (key : FontKey) (held : Instance)
  | getOrLoad (key : FontKey) (attempt : Attempt Instance)
  | clear

/-- What an action gives back. -/
inductive Answer where
  | done
  | cataloged (catalog : Catalog)
  | font (held? : Option Instance)
  | fonts (held? : List (Option Instance))
  | loaded (result : Except Failure FontProgram)
  | came (outcome : Outcome Instance)

/-- What an action leads to. -/
structure Result where
  session : Session
  answer : Answer
  events : List Event

/-- The session after a change of the files; a change that fails has no effect. -/
def changeFiles (session : Session) (changed : Except FileFault FileSystem) : Result :=
  match changed with
  | .ok files => ⟨{ session with files }, .done, []⟩
  | .error _ => ⟨session, .done, []⟩

/-- The session with a new catalog. -/
def adopt (session : Session) (scanned : Catalog × List Event) : Result :=
  ⟨{ session with catalog := scanned.1 }, .cataloged scanned.1, scanned.2⟩

/-- What loading a record gives to the cache, under the number of the loading. -/
def attempt (record : FontRecord) (files : FileSystem) (number : Nat) : Attempt Instance :=
  match (record.load files).result with
  | .ok program => .loaded ⟨number, program⟩
  | .error _ => .failed

/-- The events of loading a record, and one that reports its end. -/
def loadingEvents (record : FontRecord) (files : FileSystem) : List Event :=
  let loading := record.load files
  match loading.result with
  | .ok _ => loading.events ++ [.loaded record.postscriptName record.file]
  | .error failure => loading.events ++ [.fileFailed record.file failure]

/-- The events of a call that loads at need. -/
def eventsOf (record : FontRecord) (files : FileSystem) (outcome : Outcome Instance) :
    List Event :=
  if outcome.isRun then loadingEvents record files else []

/-- How the program of a record is got, from the cache or else from its file. -/
def getFont (session : Session) (record : FontRecord) : Session × Outcome Instance :=
  let attempt := attempt record session.files session.nextNumber
  let (cache, outcome) := session.policy.getOrLoad session.cache record.key attempt
  ({ session with cache, nextNumber := session.nextNumber + 1 }, outcome)

/-- How the programs of records are got that are asked for one after another. -/
def getFontsInOrder (session : Session) :
    List FontRecord → Session × List (Option (Outcome Instance))
  | [] => (session, [])
  | record :: rest =>
      let (next, outcome) := session.getFont record
      let (last, outcomes) := getFontsInOrder next rest
      (last, some outcome :: outcomes)

/-- The calls of threads that ask for one record each. -/
def calls (session : Session) (records : List FontRecord) : List (CacheCall FontKey Instance) :=
  records.mapIdx fun place record =>
    .getOrLoad record.key (attempt record session.files (session.nextNumber + place))

/-- How the call of a thread came to its end. -/
def outcome? : Option (CacheReply Instance) → Option (Outcome Instance)
  | some (.came outcome) => some outcome
  | _ => none

/-- How the programs of records are got that are asked for at the same time, by threads that share
the slots of the cache. The threads follow a schedule and after it take turns until all have
returned. -/
def getFontsInterleaved (session : Session) (records : List FontRecord) (schedule : List Nat) :
    Session × List (Option (Outcome Instance)) :=
  let machine := (CacheMachine.start session.cache (session.calls records)).run
    (schedule ++ CacheMachine.turns records.length)
  ({ session with
      cache := machine.cache, nextNumber := session.nextNumber + records.length },
    machine.replies.map outcome?)

/-- How the programs of records are got that are asked for at the same time. Where looking up and
storing are two calls, the order of the records is followed. -/
def getFonts (session : Session) (records : List FontRecord) (schedule : List Nat) :
    Session × List (Option (Outcome Instance)) :=
  match session.policy with
  | .holdSlot => session.getFontsInterleaved records schedule
  | .lookThenStore => session.getFontsInOrder records

/-- What an action leads to. -/
def perform (session : Session) : Action → Result
  | .write path data => session.changeFiles (session.files.write path data)
  | .makeDirectories path => session.changeFiles (session.files.makeDirectories path)
  | .remove path => session.changeFiles (session.files.remove path)
  | .catalogFiles paths => session.adopt (Catalog.ofFiles session.files paths)
  | .scan environment options =>
      session.adopt (Catalog.scan session.files environment options)
  | .failToScan reason => session.adopt (Catalog.build session.files (.error reason) [])
  | .getFont record =>
      let (after, outcome) := session.getFont record
      ⟨after, .font outcome.value?, eventsOf record session.files outcome⟩
  | .getFonts records schedule =>
      let (after, outcomes) := session.getFonts records schedule
      let events := (records.zip outcomes).flatMap fun (record, outcome?) =>
        (outcome?.map (eventsOf record session.files)).getD []
      ⟨after, .fonts (outcomes.map fun outcome? => outcome?.bind Outcome.value?), events⟩
  | .load record =>
      let loading := record.load session.files
      ⟨session, .loaded loading.result, loading.events⟩
  | .get key => ⟨session, .font (session.cache.get? key), []⟩
  | .put key held => ⟨{ session with cache := session.cache.put key held }, .done, []⟩
  | .getOrLoad key attempt =>
      let (cache, outcome) := session.policy.getOrLoad session.cache key attempt
      ⟨{ session with cache }, .came outcome, []⟩
  | .clear => ⟨{ session with cache := session.cache.clear }, .done, []⟩

/-- The session after actions, one after another. -/
def run (session : Session) (actions : List Action) : Session :=
  actions.foldl (fun now action => (now.perform action).session) session

end Session

end FontCatalog
