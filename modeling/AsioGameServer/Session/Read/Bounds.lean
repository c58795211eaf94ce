import AsioGameServer.Session.Read

open ByteMemory Transition

namespace AsioGameServer.session.ReadSide

variable {s t : ReadSide} {data : List UInt8}

end AsioGameServer.session.ReadSide
