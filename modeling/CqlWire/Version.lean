/-!
This module contains the versions of the protocol and what sets them apart.
-/

namespace CqlWire

abbrev Version := UInt8

namespace Version

def v3 : Version := 3
def v4 : Version := 4
def v5 : Version := 5
def v6 : Version := 6
def dse1 : Version := 0x41
def dse2 : Version := 0x42

def beta : Version := v6

def supported : List Version := [v3, v4, v5, v6, dse1, dse2]

def hasCustomPayload (version : Version) : Bool :=
  v4 ≤ version

def hasSegments (version : Version) : Bool :=
  version = v5 || version = v6

def isBeta (version : Version) : Bool :=
  version = beta

def hasWideQueryFlags (version : Version) : Bool :=
  version = v5 || version = v6 || version = dse2

end Version

end CqlWire
