import QuackProtocol.AnnouncedBatches
import QuackProtocol.AppendBatches
import QuackProtocol.AppendDelivery
import QuackProtocol.AppendedRows
import QuackProtocol.ArrowFits
import QuackProtocol.BaseUrls
import QuackProtocol.BatchDelivery
import QuackProtocol.BatchTypes
import QuackProtocol.CellFits
import QuackProtocol.Cells
import QuackProtocol.Client
import QuackProtocol.ColumnFaults
import QuackProtocol.Consumers
import QuackProtocol.Copies
import QuackProtocol.DecimalParsers
import QuackProtocol.DeclaredQuantities
import QuackProtocol.DecoderSafety
import QuackProtocol.DecodingMirrors
import QuackProtocol.DecodingOutlines
import QuackProtocol.Delivery
import QuackProtocol.Faults
import QuackProtocol.FetchOrder
import QuackProtocol.FixedData
import QuackProtocol.Handshakes
import QuackProtocol.Heartbeats
import QuackProtocol.InferredColumns
import QuackProtocol.IntegerColumns
import QuackProtocol.Isolation
import QuackProtocol.JsonRows
import QuackProtocol.JsonTexts
import QuackProtocol.Leases
import QuackProtocol.MessagesRoundTrip
import QuackProtocol.NamedParameters
import QuackProtocol.Negotiation
import QuackProtocol.OneQuery
import QuackProtocol.PrefixFree
import QuackProtocol.Quantities
import QuackProtocol.RecordBatches
import QuackProtocol.Rectangular
import QuackProtocol.RefusedVectors
import QuackProtocol.Relays
import QuackProtocol.Rendering
import QuackProtocol.ReshapedRows
import QuackProtocol.ResultNames
import QuackProtocol.Rows
import QuackProtocol.SequenceVectors
import QuackProtocol.Sessions
import QuackProtocol.Sql
import QuackProtocol.SqlJunctions
import QuackProtocol.SqlPlaceholders
import QuackProtocol.SqlScanning
import QuackProtocol.SqlTemplates
import QuackProtocol.StructRows
import QuackProtocol.TemporalLiterals
import QuackProtocol.Transport
import QuackProtocol.UnsignedNumbers
import QuackProtocol.Uris
import QuackProtocol.Wire
import QuackProtocol.WireOutlines
import QuackProtocol.WrappedVectors
