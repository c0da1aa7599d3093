import SftpWire.Primitive
import SftpWire.Marshal
import SftpWire.Decode
import SftpWire.Packet
import SftpWire.Body
import SftpWire.Catalog
import SftpWire.Framing
import SftpWire.Server
import SftpWire.Session
import SftpWire.Faults
import SftpWire.Serial
import SftpWire.Progress
import SftpWire.Responses
