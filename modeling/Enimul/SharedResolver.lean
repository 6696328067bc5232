import Enimul.Memo
import Enimul.Resolve

/-! Concurrent calls of `dnsResolve`, with the cache and the group that they share.
`setDNS` puts a new cache and a new group in the place of the old ones; calls that have copied
the old pointers go on with them. -/
namespace Enimul
namespace SharedResolver

open Machine GoText Policies GoRun Resolve
open Memo (Work CacheConfig)

structure Query where
  domain : Str
  mode : DNSMode
  cacheTTL : ℤ

/-- What the upstream servers reply to the messages of one resolution. -/
structure Replies where
  exchange : Msg → Except String Msg
  edns0SubnetOpt : Option RR := none
  rcodeToString : ℕ → String := fun _ => ""

def Replies.world (u : Replies) : World Unit where
  exchangeMsg msg := ofExcept (u.exchange msg)
  edns0SubnetOpt := u.edns0SubnetOpt
  hasCache := false
  cacheGet _ s := (none,s)
  cacheAdd _ _ _ s := ((),s)
  inFlight _ s := (none,s)
  rcodeToString := u.rcodeToString
  getFromIPPool _ := fail "no ip pools"

/-- The address that `doDNSResolve` finds, before it files it. -/
def Replies.address (u : Replies) (q : Query) : Except String Str :=
  (doDNSResolve u.world q.domain q.mode q.cacheTTL ()).1

/-- `dnsResolve` and `doDNSResolve`. Both the cache and the group know a resolution by its name. -/
def dnsResolve : Work Query Str Str Str Replies where
  cacheKey := Query.domain
  groupKey := Query.domain
  result := Replies.address
  lifetime q _ := if q.cacheTTL ≠ 0 ∧ q.cacheTTL ≠ unsetInt then some q.cacheTTL else none
  onError := []
  defaultCapacity := 4096

abbrev State := Memo.State Query Str Str Str Replies

abbrev Label := Memo.Label Query Replies

/-- The part of `setDNS` that makes the cache and the group. -/
def setDNS (conf : CacheConfig) (unfit gomaxprocs : ℕ) : Label := .configure conf unfit gomaxprocs

def step (hash : Str → UInt32) : State → Label → Option State := Memo.step dnsResolve hash

section Results

variable {s : State} {i g : ℕ}

theorem fits_of_capacities {ls : List Label}
    (h : ∀ conf unfit gomaxprocs, setDNS conf unfit gomaxprocs ∈ ls → conf.capacity ≤ 2^31) :
    Memo.Fits dnsResolve ls := ⟨by decide,h⟩

/-- The servers answer every question with one address. -/
def oneAddress (ip : GoSlice.Bytes) : Replies where
  exchange msg := .ok {msg with
    answer := msg.question.map fun q => ⟨⟨q.name,typeA,classINET,300⟩,.a ip⟩}

end Results

end SharedResolver
end Enimul
