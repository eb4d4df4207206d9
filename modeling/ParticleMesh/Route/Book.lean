/-
  ParticleMesh — the contact book.

  A contact book lists contacts of peers in the order they were added, each once.
-/
import ParticleMesh.Assoc
import ParticleMesh.Peer

namespace ParticleMesh

/-- Contacts of peers. -/
structure ContactBook where
  contacts : Assoc PeerId (List Contact)

namespace ContactBook

def empty : ContactBook := ⟨.empty⟩

/-- The contacts of a peer, the first added first. -/
def resolve (b : ContactBook) (peer : PeerId) : List Contact := (b.contacts.get? peer).getD []

/-- Adds a contact unless it is there. -/
def insert (b : ContactBook) (c : Contact) : ContactBook :=
  let known := b.resolve c.peer
  ⟨b.contacts.put c.peer (if c ∈ known then known else known ++ [c])⟩

/-- Whether there are contacts of a peer. -/
def knows (b : ContactBook) (peer : PeerId) : Bool := b.contacts.has peer

/-- Removes the contacts of a peer. -/
def remove (b : ContactBook) (peer : PeerId) : ContactBook := ⟨b.contacts.erase peer⟩

end ContactBook

end ParticleMesh
