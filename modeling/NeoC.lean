import NeoC.Transaction.HashCache
import NeoC.Wallet.ScriptRecognition
import NeoC.Transaction.BuilderAttributes
import NeoC.Contract.Invocation
import NeoC.Transaction.Commitment
import NeoC.Wallet.MultiSigWitness
import NeoC.WitnessRule.Equality
import NeoC.WitnessRule.JsonCodec
import NeoC.Contract.NefReencode
import NeoC.Contract.Deployment
import NeoC.Wallet.Nep6File
import NeoC.Wallet.WalletNep6
import NeoC.Contract.TokenTransfer
import NeoC.Serialization.SerializableArray
import NeoC.Protocol.IntegerItem
import NeoC.Protocol.ItemHistory
import NeoC.Wallet.Nep6StructJson
import NeoC.Transaction.BuilderFees
import NeoC.Contract.NeoUri
import NeoC.Transaction.TransactionJson
import NeoC.Protocol.BlockIndexPolling
import NeoC.Protocol.RpcClient
import NeoC.Transaction.SignMulti
import NeoC.Script.PushInteger
import NeoC.Script.PushData
import NeoC.Script.Disassembly
import NeoC.Serialization.FailedReads
import NeoC.Crypto.Base58Buffers
import NeoC.Script.ScriptAddress
import NeoC.Wallet.Nep2Keys
import NeoC.Crypto.Sign
import NeoC.Crypto.Bip32KeyPair
import NeoC.Crypto.DerivationPath
import NeoC.Runtime.HashText
import NeoC.Runtime.Base64Canonical
import NeoC.Utils.ResizableBytes
import NeoC.Contract.Iterator
import NeoC.Utils.Numeric
import NeoC.Crypto.Ripemd160
import NeoC.Utils.ByteArrayHistory
import NeoC.Utils.ArrayRefinement
import NeoC.Runtime.MemoryAccounting
import NeoC.Wallet.Bip39Account
