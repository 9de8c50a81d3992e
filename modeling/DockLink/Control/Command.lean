/-!
# Commands of the module controller

A transaction begins with the code of a command. Some commands have arguments of fixed length.
-/

namespace DockLink

inductive Command where
  | version
  | status
  | interrupt
  /-- A blob from the controller follows. -/
  | sendBlob
  /-- The controller asks for the next blob. -/
  | receiveBlob
deriving DecidableEq, Repr

namespace Command

def code : Command → UInt8
  | version => 0
  | status => 1
  | interrupt => 2
  | sendBlob => 3
  | receiveBlob => 4

def name : Command → String
  | version => "Version"
  | status => "Status"
  | interrupt => "Interrupt"
  | sendBlob => "SendBlob"
  | receiveBlob => "ReceiveBlob"

def all : List Command := [version, status, interrupt, sendBlob, receiveBlob]

/-- The command of a code, none if no command has it. -/
def ofCode? (code : UInt8) : Option Command := all.find? fun c => c.code = code

def argumentLength : Command → Nat
  | version => 0
  | status => 4
  | interrupt => 2
  | sendBlob => 0
  | receiveBlob => 0

end Command

end DockLink
